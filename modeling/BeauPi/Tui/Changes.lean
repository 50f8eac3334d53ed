import BeauPi.Tui.Renderer
import Mathlib.Tactic.Common

/-!
# What the renderer finds changed

* `changedRange_spec` — the lines outside the range are the same.
* `TUI.Repaints` — the frames for which the viewport is drawn anew.
* `visibleChange_spec` — what is left to draw otherwise.
-/

namespace BeauPi.Tui

open List

/-! ## Comparing lines -/

/-- No line is the empty text. -/
def NonEmpty (lines : List String) : Prop := ∀ line ∈ lines, line ≠ ""

theorem nonEmpty_applyLineResets (normalize : String → String) (lines : List String) :
    NonEmpty (applyLineResets normalize lines) := by
  intro line hline hempty
  obtain ⟨raw, -, rfl⟩ := mem_map.1 hline
  have hlist := congrArg String.toList hempty
  rw [String.toList_append, String.toList_empty, append_eq_nil_iff] at hlist
  exact absurd hlist.2 (by decide)

variable {old new : List String}

/-- Lines that are compared as equal are the same lines. -/
theorem differs_eq_false (hold : NonEmpty old) (hnew : NonEmpty new) {i : Nat} :
    differs old new i = false ↔ old[i]? = new[i]? := by
  unfold differs lineAt
  rw [decide_eq_false_iff_not, Ne, not_not, getD_eq_getElem?_getD,
    getD_eq_getElem?_getD]
  cases hi : old[i]? with
  | none =>
    cases hj : new[i]? with
    | none => simp
    | some b => simpa using (hnew b (mem_of_getElem? hj)).symm
  | some a =>
    cases hj : new[i]? with
    | none => simpa using hold a (mem_of_getElem? hi)
    | some b => simp

theorem firstDiff_eq_some {start stop i : Nat} (h : firstDiff old new start stop = some i) :
    start ≤ i ∧ i < stop ∧ differs old new i = true ∧
      ∀ j, start ≤ j → j < i → differs old new j = false := by
  unfold firstDiff at h
  obtain ⟨hdiffers, hmem, hbefore⟩ := find?_range'_eq_some.1 h
  rw [mem_range'_1] at hmem
  refine ⟨hmem.1, by omega, hdiffers, fun j hj hlt => ?_⟩
  simpa using hbefore j hj hlt

theorem firstDiff_eq_none {start stop : Nat} (h : firstDiff old new start stop = none) {j : Nat}
    (hj : start ≤ j) (hlt : j < stop) : differs old new j = false := by
  unfold firstDiff at h
  simpa using find?_range'_eq_none.1 h j hj (by omega)

/-- The last number with a property. -/
theorem find?_reverse_range {p : Nat → Bool} {n k : Nat}
    (h : (List.range n).reverse.find? p = some k) :
    k < n ∧ p k = true ∧ ∀ j, k < j → j < n → p j = false := by
  induction n with
  | zero => cases h
  | succ n ih =>
    rw [range_succ, reverse_concat, find?_cons] at h
    cases hn : p n with
    | true =>
      rw [hn] at h
      obtain rfl : n = k := Option.some.inj h
      exact ⟨Nat.lt_succ_self _, hn, fun j hj hlt => by omega⟩
    | false =>
      rw [hn] at h
      obtain ⟨hk, hp, hafter⟩ := ih h
      refine ⟨by omega, hp, fun j hj hlt => ?_⟩
      by_cases hlast : j = n
      · rw [hlast, hn]
      · exact hafter j hj (by omega)

/-- Past the end of both there is nothing to compare. -/
theorem getElem?_eq_of_le {i : Nat} (hi : max new.length old.length ≤ i) : old[i]? = new[i]? := by
  rw [getElem?_eq_none (by omega), getElem?_eq_none (by omega)]

/-- The lines outside the range that has changed are the same. -/
theorem changedRange_spec (hold : NonEmpty old) (hnew : NonEmpty new) {first last : Nat}
    (h : changedRange old new = some (first, last)) :
    (∀ i, i < first → old[i]? = new[i]?) ∧ (∀ i, last < i → old[i]? = new[i]?) ∧
      first ≤ last ∧ first ≤ old.length ∧ (old.length < new.length → last = new.length - 1) ∧
      (new.length ≤ old.length → first < old.length ∧ old[first]? ≠ new[first]?) := by
  have hsame : ∀ {i}, differs old new i = false → old[i]? = new[i]? :=
    (differs_eq_false hold hnew).1
  unfold changedRange at h
  dsimp only at h
  split at h
  · next happended =>
    obtain ⟨hfirst, rfl⟩ := Prod.mk.inj (Option.some.inj h)
    cases hdiff : firstDiff old new 0 (max new.length old.length) with
    | none =>
      rw [hdiff] at hfirst
      obtain rfl : old.length = first := hfirst
      have hall : ∀ i, i < new.length → old[i]? = new[i]? := fun i hi =>
        hsame (firstDiff_eq_none hdiff (Nat.zero_le i) (by omega))
      have hlast := hall old.length happended
      rw [getElem?_eq_none (Nat.le_refl _), eq_comm, List.getElem?_eq_none_iff] at hlast
      omega
    | some i =>
      rw [hdiff] at hfirst
      obtain rfl : i = first := hfirst
      obtain ⟨-, hlt, hdiffers, hbefore⟩ := firstDiff_eq_some hdiff
      have hle : i ≤ old.length := by
        by_contra hgt
        have hend := hsame (hbefore old.length (Nat.zero_le _) (by omega))
        rw [getElem?_eq_none (Nat.le_refl _), eq_comm, List.getElem?_eq_none_iff] at hend
        omega
      exact ⟨fun j hj => hsame (hbefore j (Nat.zero_le j) hj),
        fun j hj => getElem?_eq_of_le (by omega), by omega, hle, fun _ => rfl, by omega⟩
  · next hkept =>
    obtain ⟨i, hdiff, hrange⟩ := Option.map_eq_some_iff.1 h
    obtain ⟨rfl, hlast⟩ := Prod.mk.inj hrange
    obtain ⟨-, hlt, hdiffers, hbefore⟩ := firstDiff_eq_some hdiff
    have hne : old[i]? ≠ new[i]? := fun heq => by
      rw [(differs_eq_false hold hnew).2 heq] at hdiffers
      cases hdiffers
    cases hfind : (List.range (max new.length old.length)).reverse.find? (differs old new) with
    | none =>
      have hnone := find?_eq_none.1 hfind i (by simpa using hlt)
      exact absurd hdiffers hnone
    | some k =>
      rw [hfind] at hlast
      obtain rfl : k = last := hlast
      obtain ⟨hk, hkdiffers, hafter⟩ := find?_reverse_range hfind
      have hle : i ≤ k := by
        by_contra hgt
        rw [hafter i (by omega) hlt] at hdiffers
        cases hdiffers
      have hsameAfter : ∀ j, k < j → old[j]? = new[j]? := by
        intro j hj
        by_cases hin : j < max new.length old.length
        · exact hsame (hafter j hj hin)
        · exact getElem?_eq_of_le (by omega)
      exact ⟨fun j hj => hsame (hbefore j (Nat.zero_le j) hj), hsameAfter, hle, by omega, by omega,
        fun _ => ⟨by omega, hne⟩⟩

theorem changedRange_eq_none (hold : NonEmpty old) (hnew : NonEmpty new)
    (h : changedRange old new = none) : old = new := by
  unfold changedRange at h
  dsimp only at h
  split at h
  · cases h
  · have hnone := Option.map_eq_none_iff.1 h
    refine ext_getElem? fun i => ?_
    by_cases hin : i < max new.length old.length
    · exact (differs_eq_false hold hnew).1 (firstDiff_eq_none hnone (Nat.zero_le i) hin)
    · exact getElem?_eq_of_le (by omega)

/-! ## Frames for which the viewport is drawn anew -/

/-- Does a change reach above the viewport in such a way that the viewport is drawn anew? -/
def TUI.ReachesAbove (t : TUI) (new : List String) : Prop :=
  (0 < t.previousViewportTop ∧ new.length ≤ t.previousViewportTop) ∨
    (new.length < t.previousLines.length ∧
      (∃ i < t.previousViewportTop, t.previousLines[i]? ≠ new[i]?) ∧
      ∃ i, t.previousViewportTop ≤ i ∧ i < new.length ∧ t.previousLines[i]? ≠ new[i]?)

variable {t : TUI}

/-- A change that reaches above the viewport starts there, or it deletes all of the viewport. -/
theorem visibleChange_above (hold : NonEmpty t.previousLines) (hnew : NonEmpty new)
    (hreach : t.previousViewportTop < t.previousLines.length) (habove : t.ReachesAbove new) :
    ∃ first last appendStart, t.visibleChange new = .range first last appendStart ∧
      (new.length ≤ first ∧ new.length < t.previousLines.length ∧
        new.length - 1 < t.previousViewportTop ∨
      first < new.length ∧ first < t.previousViewportTop) := by
  cases hrange : changedRange t.previousLines new with
  | none =>
    have hsame := changedRange_eq_none hold hnew hrange
    rcases habove with ⟨-, hshort⟩ | ⟨hshort, -⟩
    · rw [hsame] at hreach
      omega
    · rw [hsame] at hshort
      omega
  | some range =>
    obtain ⟨first, last⟩ := range
    obtain ⟨hbefore, -⟩ := changedRange_spec hold hnew hrange
    have hrest : ¬(first < t.previousViewportTop ∧ t.previousViewportTop ≤ new.length - 1 ∧
        (new.length < t.previousLines.length →
          firstDiff t.previousLines new t.previousViewportTop new.length = none)) →
        ∃ appendStart, t.visibleChange new = .range first last appendStart := by
      intro hno
      unfold TUI.visibleChange
      dsimp only
      rw [hrange]
      dsimp only
      rw [if_neg hno]
      exact ⟨_, rfl⟩
    rcases habove with ⟨htop, hshort⟩ | ⟨hshort, ⟨i, hi, habove⟩, j, hj, hjn, hvisible⟩
    · obtain ⟨appendStart, hchange⟩ := hrest (by omega)
      refine ⟨first, last, appendStart, hchange, ?_⟩
      have hle : first ≤ new.length := by
        by_contra hgt
        have hend := hbefore new.length (by omega)
        rw [getElem?_eq_none (Nat.le_refl _), List.getElem?_eq_none_iff] at hend
        omega
      omega
    · have hfirst : first ≤ i := by
        by_contra hgt
        exact habove (hbefore i (by omega))
      have hno : firstDiff t.previousLines new t.previousViewportTop new.length ≠ none :=
        fun hnone => hvisible ((differs_eq_false hold hnew).1 (firstDiff_eq_none hnone hj hjn))
      obtain ⟨appendStart, hchange⟩ := hrest fun hcond => hno (hcond.2.2 hshort)
      exact ⟨first, last, appendStart, hchange, Or.inr ⟨by omega, by omega⟩⟩

/-- A change that is drawn: the lines of the viewport outside it are the same. -/
structure Drawable (old new : List String) (top first last : Nat) (appendStart : Bool) : Prop where
  visible : top ≤ first
  before : ∀ i, top ≤ i → i < first → old[i]? = new[i]?
  after : ∀ i, last < i → old[i]? = new[i]?
  ordered : first ≤ last
  starts : first ≤ old.length
  appended : old.length < new.length → last = new.length - 1
  kept : new.length ≤ old.length → first < old.length
  append : appendStart = true ↔ old.length < new.length ∧ first = old.length ∧ 0 < first

/-- Any other change is drawn where it is visible. -/
theorem visibleChange_spec (hold : NonEmpty t.previousLines) (hnew : NonEmpty new)
    (hreach : t.previousViewportTop < t.previousLines.length) (hbelow : ¬t.ReachesAbove new) :
    match t.visibleChange new with
    | .nothing => t.previousLines = new
    | .offscreenOnly => t.previousLines.length = new.length ∧
        ∀ i, t.previousViewportTop ≤ i → t.previousLines[i]? = new[i]?
    | .range first last appendStart =>
      Drawable t.previousLines new t.previousViewportTop first last appendStart := by
  have hsame : ∀ {i}, differs t.previousLines new i = false → t.previousLines[i]? = new[i]? :=
    (differs_eq_false hold hnew).1
  unfold TUI.visibleChange
  dsimp only
  cases hrange : changedRange t.previousLines new with
  | none => exact changedRange_eq_none hold hnew hrange
  | some range =>
    obtain ⟨first, last⟩ := range
    obtain ⟨hbefore, hafter, hordered, hstarts, happended, hkept⟩ :=
      changedRange_spec hold hnew hrange
    dsimp only
    by_cases hoffscreen : first < t.previousViewportTop ∧
        t.previousViewportTop ≤ new.length - 1 ∧ (new.length < t.previousLines.length →
          firstDiff t.previousLines new t.previousViewportTop new.length = none)
    · rw [if_pos hoffscreen]
      obtain ⟨habove, hin, -⟩ := hoffscreen
      cases hvisible : firstDiff t.previousLines new t.previousViewportTop
          (max new.length t.previousLines.length) with
      | none =>
        have hall : ∀ i, t.previousViewportTop ≤ i → t.previousLines[i]? = new[i]? := by
          intro i hi
          by_cases hlt : i < max new.length t.previousLines.length
          · exact hsame (firstDiff_eq_none hvisible hi hlt)
          · exact getElem?_eq_of_le (by omega)
        dsimp only
        by_cases hlonger : t.previousLines.length < new.length
        · rw [if_pos hlonger]
          exact ⟨by omega, fun i hi _ => hall i hi, hafter, by omega, Nat.le_refl _, happended,
            by omega, by simp [hlonger]⟩
        · rw [if_neg hlonger]
          refine ⟨?_, hall⟩
          have hend := hall (t.previousLines.length - 1) (by omega)
          rw [getElem?_eq_getElem (by omega), eq_comm, List.getElem?_eq_some_iff] at hend
          obtain ⟨hlt, -⟩ := hend
          omega
      | some i =>
        obtain ⟨hi, hlt, hdiffers, hno⟩ := firstDiff_eq_some hvisible
        have hne : t.previousLines[i]? ≠ new[i]? := fun heq => by
          rw [(differs_eq_false hold hnew).2 heq] at hdiffers
          cases hdiffers
        have hlast : i ≤ last := by
          by_contra hgt
          exact hne (hafter i (by omega))
        have hle : i ≤ t.previousLines.length := by
          by_contra hgt
          have hend := hsame (hno t.previousLines.length (by omega) (by omega))
          rw [getElem?_eq_none (Nat.le_refl _), eq_comm, List.getElem?_eq_none_iff] at hend
          omega
        exact ⟨hi, fun j hj hji => hsame (hno j hj hji), hafter, hlast, hle, happended,
          by omega, decide_eq_true_iff⟩
    · rw [if_neg hoffscreen]
      have hvisible : t.previousViewportTop ≤ first := by
        by_contra hgt
        have hlong : ¬new.length ≤ t.previousViewportTop := fun hshort =>
          hbelow (Or.inl ⟨by omega, hshort⟩)
        refine hoffscreen ⟨by omega, by omega, fun hshrinks => ?_⟩
        cases hdiff : firstDiff t.previousLines new t.previousViewportTop new.length with
        | none => rfl
        | some j =>
          obtain ⟨hj, hjn, hdiffers, -⟩ := firstDiff_eq_some hdiff
          refine absurd (Or.inr ⟨hshrinks, ⟨first, by omega, (hkept (by omega)).2⟩, j, hj, hjn, ?_⟩)
            hbelow
          intro heq
          rw [(differs_eq_false hold hnew).2 heq] at hdiffers
          cases hdiffers
      exact ⟨hvisible, fun i _ hi => hbefore i hi, hafter, hordered, hstarts, happended,
        fun hle => (hkept hle).1, decide_eq_true_iff⟩

end BeauPi.Tui
