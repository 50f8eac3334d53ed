import Mathlib.Algebra.BigOperators.Intervals
import Mathlib.Algebra.Order.BigOperators.Group.Finset
import Mathlib.Algebra.Order.Ring.Rat
import Mathlib.Data.Rat.Cast.Order

/-!
# Spending a budget from the end

A sequence of weighted positions is walked from its end towards its start until the weights
collected reach a budget.

* `reachBack` — where the walk stops.
* `reachBack_eq_some` — it is the last counted position from which the weights reach the budget.
* `reachBack_eq_none` — it does not exist when no counted position reaches the budget.
-/

namespace BeauPi.Machine

/-- The first counted position, walking back from `n` to `start`, at which the weights collected
reach `budget`; `collected` is what was collected before. -/
def reachBack (weight : Nat → Nat) (counted : Nat → Bool) (budget : ℚ) (start : Nat) :
    Nat → Nat → Option Nat
  | 0, _ => none
  | i + 1, collected =>
    if i < start then none
    else if counted i then
      if budget ≤ (collected + weight i : Nat) then some i
      else reachBack weight counted budget start i (collected + weight i)
    else reachBack weight counted budget start i collected

/-- The weight of the positions from `i` to `n`. -/
def weightFrom (weight : Nat → Nat) (n i : Nat) : Nat := ∑ j ∈ Finset.Ico i n, weight j

variable {weight : Nat → Nat} {counted : Nat → Bool} {budget : ℚ} {start n i j : Nat}

theorem weightFrom_self : weightFrom weight n n = 0 := by simp [weightFrom]

/-- The weight from a position is its own and that of the later ones. -/
theorem weightFrom_eq (h : i < n) :
    weightFrom weight n i = weight i + weightFrom weight n (i + 1) := by
  unfold weightFrom
  rw [Finset.sum_eq_sum_Ico_succ_bot h]

/-- Later positions have less weight behind them. -/
theorem weightFrom_anti (h : i ≤ j) : weightFrom weight n j ≤ weightFrom weight n i := by
  unfold weightFrom
  exact Finset.sum_le_sum_of_subset (Finset.Ico_subset_Ico_left h)

/-- Some position of a range that has weight starts all of that weight. -/
theorem exists_weightFrom (h : 0 < weightFrom weight n i) :
    ∃ j, i ≤ j ∧ j < n ∧ 0 < weight j ∧ weightFrom weight n j = weightFrom weight n i := by
  by_cases hn : i < n
  · induction hk : n - i generalizing i with
    | zero => omega
    | succ k ih =>
      rcases Nat.eq_zero_or_pos (weight i) with hzero | hpos
      · have heq : weightFrom weight n i = weightFrom weight n (i + 1) := by
          rw [weightFrom_eq hn, hzero, Nat.zero_add]
        rw [heq] at h
        have hnext : i + 1 < n := by
          by_contra hlast
          obtain rfl : n = i + 1 := by omega
          rw [weightFrom_self] at h
          exact Nat.lt_irrefl 0 h
        obtain ⟨j, hij, hjn, hweight, hsame⟩ := ih h hnext (by omega)
        exact ⟨j, by omega, hjn, hweight, by rw [hsame, heq]⟩
      · exact ⟨i, le_rfl, hn, hpos, rfl⟩
  · simp [weightFrom, Finset.Ico_eq_empty (by omega : ¬i < n)] at h

/-- What the walk has found out when it has come to position `i`. -/
theorem reachBack_spec (hcounted : ∀ i, counted i = false → weight i = 0) (hi : i ≤ n)
    (hbefore : ∀ j, i ≤ j → j < n → counted j = true → (weightFrom weight n j : ℚ) < budget) :
    (∀ k, reachBack weight counted budget start i (weightFrom weight n i) = some k →
      start ≤ k ∧ k < i ∧ counted k = true ∧ budget ≤ weightFrom weight n k ∧
        ∀ j, k < j → j < n → counted j = true → (weightFrom weight n j : ℚ) < budget) ∧
    (reachBack weight counted budget start i (weightFrom weight n i) = none →
      ∀ j, start ≤ j → j < n → counted j = true → (weightFrom weight n j : ℚ) < budget) := by
  induction i with
  | zero =>
    constructor
    · intro k hk
      simp [reachBack] at hk
    · intro _ j _ hj hc
      exact hbefore j (Nat.zero_le j) hj hc
  | succ i ih =>
    have hweight : weightFrom weight n (i + 1) + weight i = weightFrom weight n i := by
      rw [weightFrom_eq (by omega : i < n), Nat.add_comm]
    unfold reachBack
    by_cases hstart : i < start
    · simp only [if_pos hstart, reduceCtorEq, IsEmpty.forall_iff, implies_true, true_and]
      intro _ j hj hjn hc
      exact hbefore j (by omega) hjn hc
    · simp only [if_neg hstart]
      cases hc : counted i with
      | true =>
        simp only [if_true, hweight]
        by_cases hbudget : budget ≤ (weightFrom weight n i : ℚ)
        · simp only [if_pos hbudget, Option.some.injEq, reduceCtorEq, IsEmpty.forall_iff, and_true]
          rintro k rfl
          exact ⟨by omega, by omega, hc, hbudget, fun j hj => hbefore j hj⟩
        · simp only [if_neg hbudget]
          have hnow : ∀ j, i ≤ j → j < n → counted j = true →
              (weightFrom weight n j : ℚ) < budget := by
            intro j hij hjn hcj
            rcases Nat.eq_or_lt_of_le hij with rfl | hlt
            · exact not_le.1 hbudget
            · exact hbefore j hlt hjn hcj
          obtain ⟨hsome, hnone⟩ := ih (by omega) hnow
          exact ⟨fun k hk => (hsome k hk).imp id (And.imp (by omega) id), hnone⟩
      | false =>
        have hsame : weightFrom weight n (i + 1) = weightFrom weight n i := by
          rw [hcounted i hc, Nat.add_zero] at hweight
          exact hweight
        simp only [Bool.false_eq_true, if_false, hsame]
        have hnow : ∀ j, i ≤ j → j < n → counted j = true →
            (weightFrom weight n j : ℚ) < budget := by
          intro j hij hjn hcj
          rcases Nat.eq_or_lt_of_le hij with rfl | hlt
          · rw [hc] at hcj; cases hcj
          · exact hbefore j hlt hjn hcj
        obtain ⟨hsome, hnone⟩ := ih (by omega) hnow
        exact ⟨fun k hk => (hsome k hk).imp id (And.imp (by omega) id), hnone⟩

/-- **The walk stops at the last counted position from which the budget is reached.** -/
theorem reachBack_eq_some (hcounted : ∀ i, counted i = false → weight i = 0)
    (h : reachBack weight counted budget start n 0 = some i) :
    start ≤ i ∧ i < n ∧ counted i = true ∧ budget ≤ weightFrom weight n i ∧
      ∀ j, i < j → j < n → counted j = true → (weightFrom weight n j : ℚ) < budget := by
  refine (reachBack_spec hcounted le_rfl (fun j hj hjn => by omega)).1 i ?_
  rwa [weightFrom_self]

/-- The walk does not stop when no counted position reaches the budget. -/
theorem reachBack_eq_none (hcounted : ∀ i, counted i = false → weight i = 0)
    (h : reachBack weight counted budget start n 0 = none) :
    ∀ j, start ≤ j → j < n → counted j = true → (weightFrom weight n j : ℚ) < budget := by
  refine (reachBack_spec hcounted le_rfl (fun j hj hjn => by omega)).2 ?_
  rwa [weightFrom_self]

/-- The walk looks at the positions before `n` only. -/
theorem reachBack_congr {weight' : Nat → Nat} {counted' : Nat → Bool} {collected : Nat}
    (hweight : ∀ i < n, weight i = weight' i) (hcounted : ∀ i < n, counted i = counted' i) :
    reachBack weight counted budget start n collected =
      reachBack weight' counted' budget start n collected := by
  induction n generalizing collected with
  | zero => rfl
  | succ n ih =>
    have hrest := fun collected => @ih collected (fun i hi => hweight i (by omega))
      (fun i hi => hcounted i (by omega))
    unfold reachBack
    rw [hweight n (by omega), hcounted n (by omega), hrest, hrest]

end BeauPi.Machine
