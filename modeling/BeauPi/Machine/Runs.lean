import Mathlib.Data.List.Basic

/-!
# Runs of a transition system

A system is a partial step function `step : σ → ε → Option σ`: the event `e` is
enabled in `s` exactly when `step s e` is a state.  Everything this development
proves about whole executions is proved with the two notions below.

* `runFrom` — replay a list of events; `none` as soon as an event is not enabled.
* `Along` — a property of single steps that holds at every step a list of events
  takes.  A guard on the steps and the guarantee it buys are both of this form,
  and `along_of_invariant` is the rule that leads from one to the other.
* `Reaches` — the states a run can visit when each of its steps meets a guard.
-/

namespace BeauPi.Machine

variable {σ ε : Type}

/-- Replay a list of events from a state. -/
def runFrom (step : σ → ε → Option σ) : σ → List ε → Option σ
  | s, [] => some s
  | s, e :: es => (step s e).bind fun t => runFrom step t es

/-- `P` holds of every step the list of events takes, up to the first event that
is not enabled. -/
def Along (step : σ → ε → Option σ) (P : σ → ε → σ → Prop) : σ → List ε → Prop
  | _, [] => True
  | s, e :: es => ∀ t, step s e = some t → P s e t ∧ Along step P t es

/-- A decidable property of steps can be checked along a given run. -/
instance decidableAlong {step : σ → ε → Option σ} {P : σ → ε → σ → Prop}
    [∀ s e t, Decidable (P s e t)] : ∀ (s : σ) (es : List ε), Decidable (Along step P s es)
  | _, [] => isTrue trivial
  | s, e :: es =>
    match h : step s e with
    | none => isTrue fun _ ht => nomatch h.symm.trans ht
    | some u =>
      have : Decidable (Along step P u es) := decidableAlong u es
      decidable_of_iff (P s e u ∧ Along step P u es)
        ⟨fun hp _ ht => Option.some.inj (h.symm.trans ht) ▸ hp, fun hp => hp u h⟩

/-- The states a run from `s` can visit if all its steps meet the guard `G`. -/
inductive Reaches (step : σ → ε → Option σ) (G : σ → ε → Prop) (s : σ) : σ → Prop
  | refl : Reaches step G s s
  | tail {t u : σ} {e : ε} : Reaches step G s t → G t e → step t e = some u →
      Reaches step G s u

variable {step : σ → ε → Option σ}

@[simp] theorem runFrom_nil (s : σ) : runFrom step s [] = some s := rfl

theorem runFrom_cons (s : σ) (e : ε) (es : List ε) :
    runFrom step s (e :: es) = (step s e).bind fun t => runFrom step t es := rfl

variable {P : σ → ε → σ → Prop}

/-- What holds along a run holds of its last step. -/
theorem along_last {e : ε} {u t : σ} :
    ∀ (es : List ε) (s : σ), Along step P s (es ++ [e]) → runFrom step s es = some u →
      step u e = some t → P u e t := by
  intro es
  induction es with
  | nil => intro s h hrun hstep; cases hrun; exact (h t hstep).1
  | cons f es ih =>
    intro s h hrun hstep
    rw [runFrom_cons] at hrun
    obtain ⟨v, hv, hrun⟩ := Option.bind_eq_some_iff.1 hrun
    exact ih v (h v hv).2 hrun hstep

variable {I : σ → Prop}

/-- **The run rule.**  If a guarded step keeps the invariant and delivers the
guarantee, then a run whose steps are all guarded delivers it at every step. -/
theorem along_of_invariant {Q : σ → ε → σ → Prop}
    (h : ∀ s e t, I s → step s e = some t → P s e t → Q s e t ∧ I t) :
    ∀ (es : List ε) (s : σ), I s → Along step P s es → Along step Q s es := by
  intro es
  induction es with
  | nil => intro s _ _; trivial
  | cons e es ih =>
    intro s hs hP t ht
    obtain ⟨hstep, hrest⟩ := hP t ht
    obtain ⟨hQ, hInv⟩ := h s e t hs ht hstep
    exact ⟨hQ, ih t hInv hrest⟩

theorem along_true (es : List ε) (s : σ) : Along step (fun _ _ _ => True) s es := by
  induction es generalizing s with
  | nil => trivial
  | cons e es ih => exact fun t _ => ⟨trivial, ih t⟩

/-- Two guards that hold along a run hold together. -/
theorem along_and {Q : σ → ε → σ → Prop} : ∀ (es : List ε) (s : σ), Along step P s es →
    Along step Q s es → Along step (fun s e t => P s e t ∧ Q s e t) s es := by
  intro es
  induction es with
  | nil => intro s _ _; trivial
  | cons e es ih =>
    intro s hP hQ t ht
    exact ⟨⟨(hP t ht).1, (hQ t ht).1⟩, ih t (hP t ht).2 (hQ t ht).2⟩

/-- An invariant of the guarded steps holds in the state a guarded run ends in. -/
theorem runFrom_invariant (h : ∀ s e t, I s → step s e = some t → P s e t → I t) :
    ∀ (es : List ε) (s t : σ), I s → Along step P s es → runFrom step s es = some t →
      I t := by
  intro es
  induction es with
  | nil => intro s t hs _ ht; cases ht; exact hs
  | cons e es ih =>
    intro s t hs hP ht
    rw [runFrom_cons] at ht
    cases hse : step s e with
    | none => rw [hse] at ht; cases ht
    | some u =>
      rw [hse] at ht
      obtain ⟨hstep, hrest⟩ := hP u hse
      exact ih u t (h s e u hs hse hstep) hrest ht

/-- A property that holds at the start and is kept by every guarded step holds in
every state a guarded run visits. -/
theorem reaches_invariant {G : σ → ε → Prop} {s t : σ} (hs : I s)
    (h : ∀ u e v, I u → G u e → step u e = some v → I v) (hst : Reaches step G s t) : I t := by
  induction hst with
  | refl => exact hs
  | tail _ hG hstep ih => exact h _ _ _ ih hG hstep

/-- The state a run ends in is one of the states it can visit. -/
theorem reaches_of_runFrom {G : σ → ε → Prop} :
    ∀ (es : List ε) (s t u : σ), Reaches step G s t →
      Along step (fun s e _ => G s e) t es → runFrom step t es = some u →
      Reaches step G s u := by
  intro es
  induction es with
  | nil => intro s t u hst _ hu; cases hu; exact hst
  | cons e es ih =>
    intro s t u hst hG hu
    rw [runFrom_cons] at hu
    cases hte : step t e with
    | none => rw [hte] at hu; cases hu
    | some v =>
      rw [hte] at hu
      obtain ⟨hg, hrest⟩ := hG v hte
      exact ih s v u (hst.tail hg hte) hrest hu

end BeauPi.Machine
