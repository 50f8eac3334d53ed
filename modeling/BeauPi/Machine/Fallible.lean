import Mathlib.Data.List.Forall2

/-!
# Computations that may throw

How the `Except` combinators used by the validators succeed: a sequence succeeds
when each of its parts does, a loop when each of its rounds does.
-/

namespace BeauPi.Machine

open List

variable {ε α β : Type}

variable {f : α → Except ε β}

theorem bind_eq_ok {x : Except ε α} {b : β} :
    x >>= f = .ok b ↔ ∃ a, x = .ok a ∧ f a = .ok b := by
  cases x with
  | error e =>
    constructor
    · intro h; cases h
    · rintro ⟨a, h, -⟩; cases h
  | ok a =>
    constructor
    · intro h; exact ⟨a, rfl, h⟩
    · rintro ⟨a', h, hb⟩; cases h; exact hb

theorem mapM_eq_ok :
    ∀ {xs : List α} {ys : List β}, xs.mapM f = .ok ys →
      List.Forall₂ (fun x y => f x = .ok y) xs ys := by
  intro xs
  induction xs with
  | nil => intro ys h; cases h; exact List.Forall₂.nil
  | cons x xs ih =>
    intro ys h
    rw [mapM_cons] at h
    obtain ⟨y, hy, h⟩ := bind_eq_ok.1 h
    obtain ⟨rest, hrest, h⟩ := bind_eq_ok.1 h
    cases h
    exact List.Forall₂.cons hy (ih hrest)

variable {xs : List α} {ys : List β}

/-- A sequence whose parts succeed under a condition, with a known value. -/
theorem mapM_eq_ok_iff {g : α → β} {P : α → Prop} (h : ∀ x ∈ xs, ∀ y, f x = .ok y ↔ P x ∧ y = g x) :
    xs.mapM f = .ok ys ↔ (∀ x ∈ xs, P x) ∧ ys = xs.map g := by
  induction xs generalizing ys with
  | nil =>
    constructor
    · intro hnil
      cases hnil
      exact ⟨by simp, rfl⟩
    · rintro ⟨-, rfl⟩
      rfl
  | cons x xs ih =>
    have hrest : ∀ ys, xs.mapM f = .ok ys ↔ (∀ x ∈ xs, P x) ∧ ys = xs.map g :=
      fun _ => ih fun x' hx' => h x' (mem_cons_of_mem _ hx')
    rw [mapM_cons, bind_eq_ok, forall_mem_cons, map_cons]
    constructor
    · rintro ⟨y, hy, htail⟩
      obtain ⟨rest, hmap, htail⟩ := bind_eq_ok.1 htail
      obtain ⟨hx, rfl⟩ := (h x mem_cons_self y).1 hy
      obtain ⟨hxs, rfl⟩ := (hrest rest).1 hmap
      exact ⟨⟨hx, hxs⟩, (Except.ok.inj htail).symm⟩
    · rintro ⟨⟨hx, hxs⟩, rfl⟩
      exact ⟨g x, (h x mem_cons_self _).2 ⟨hx, rfl⟩,
        bind_eq_ok.2 ⟨xs.map g, (hrest _).2 ⟨hxs, rfl⟩, rfl⟩⟩

theorem forM_eq_ok {f : α → Except ε Unit} :
    ∀ {xs : List α} {u : Unit}, xs.forM f = .ok u → ∀ x ∈ xs, f x = .ok () := by
  intro xs
  induction xs with
  | nil => intro u _ x hx; exact absurd hx not_mem_nil
  | cons y ys ih =>
    intro u h x hx
    rw [forM_eq_forM, forM_cons] at h
    obtain ⟨v, hy, h⟩ := bind_eq_ok.1 h
    rcases mem_cons.1 hx with rfl | hx
    · cases v; exact hy
    · exact ih h x hx

/-- A loop succeeds when each of its rounds does. -/
theorem forM_ok {f : α → Except ε Unit} :
    ∀ {xs : List α}, (∀ x ∈ xs, f x = .ok ()) → xs.forM f = .ok () := by
  intro xs
  induction xs with
  | nil => intro _; rfl
  | cons y ys ih =>
    intro h
    rw [forM_eq_forM, forM_cons, h y (mem_cons_self ..)]
    exact ih fun x hx => h x (mem_cons_of_mem _ hx)

theorem mapM_eq_some {f : α → Option β} :
    ∀ {xs : List α} {ys : List β}, xs.mapM f = some ys →
      List.Forall₂ (fun x y => f x = some y) xs ys := by
  intro xs
  induction xs with
  | nil => intro ys h; cases h; exact List.Forall₂.nil
  | cons x xs ih =>
    intro ys h
    rw [mapM_cons] at h
    obtain ⟨y, hy, h⟩ := Option.bind_eq_some_iff.1 h
    obtain ⟨rest, hrest, h⟩ := Option.bind_eq_some_iff.1 h
    cases h
    exact List.Forall₂.cons hy (ih hrest)

/-- Every element on the right of a pairing has a partner on the left. -/
theorem exists_of_forall₂_right {R : α → β → Prop} (h : List.Forall₂ R xs ys) {y : β}
    (hy : y ∈ ys) : ∃ x ∈ xs, R x y := by
  induction h with
  | nil => exact absurd hy not_mem_nil
  | @cons a b l _ hab _ ih =>
    rcases mem_cons.1 hy with rfl | hy
    · exact ⟨a, mem_cons_self .., hab⟩
    · obtain ⟨x, hx, hr⟩ := ih hy
      exact ⟨x, mem_cons_of_mem _ hx, hr⟩

theorem map_eq_of_forall₂ {γ : Type} {f : α → γ} {g : β → γ}
    (h : List.Forall₂ (fun x y => f x = g y) xs ys) : ys.map g = xs.map f := by
  induction h with
  | nil => rfl
  | cons hxy _ ih => rw [map_cons, map_cons, hxy, ih]

/-- A fold whose steps cannot raise `e` from a state that satisfies `I` does not
raise it either. -/
theorem foldlM_ne_error {f : β → α → Except ε β} {I : β → Prop} {e : ε} {l : List α}
    (hstep : ∀ b, ∀ c ∈ l, I b → f b c ≠ .error e)
    (hI : ∀ b, ∀ c ∈ l, I b → ∀ b', f b c = .ok b' → I b') :
    ∀ {b : β}, I b → l.foldlM f b ≠ .error e := by
  induction l with
  | nil => intro b _ h; cases h
  | cons c l ih =>
    intro b hb h
    rw [foldlM_cons] at h
    cases hc : f b c with
    | error e' =>
      rw [hc] at h
      injection h with h
      exact hstep b c (mem_cons_self ..) hb (h ▸ hc)
    | ok b₁ =>
      rw [hc] at h
      exact ih (fun b d hd => hstep b d (mem_cons_of_mem _ hd))
        (fun b d hd => hI b d (mem_cons_of_mem _ hd))
        (hI b c (mem_cons_self ..) hb b₁ hc) h

/-! ## What a computation can throw -/

namespace ThrowsOnly

variable {P : ε → Prop}

end ThrowsOnly

end BeauPi.Machine
