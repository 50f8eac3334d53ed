import BeauPi.Js.Shape
import BeauPi.Machine.Fallible
import Mathlib.Data.List.Nodup

/-!
# Which records a shape accepts

* `Shape.Accepts` — the record is read back from what it is written as.
* `accepts_text`, `accepts_array`, `accepts_object`, … — from the parts of a record to the record.
* `of_read_text`, `of_read_array`, `of_read_required`, … — from a value that was read to its parts.
-/

namespace BeauPi.Shape

open List

variable {α β ρ : Type}

/-- The schema accepts the value that represents `a`. -/
def Accepts (shape : Shape α) (a : α) : Prop := shape.read? (shape.write a) = some a

/-! ## Scalars -/

variable {accepts : String → Bool}

variable {s : String}

theorem accepts_text (h : accepts s = true) :
    (text accepts).Accepts s := if_pos h

variable {v : Json}

theorem of_read_text (h : (text accepts).read? v = some s) :
    v = .str s ∧ accepts s = true := by
  cases v with
  | str t =>
    simp only [text, Option.ite_none_right_eq_some, Option.some.injEq] at h
    obtain ⟨haccepts, rfl⟩ := h
    exact ⟨rfl, haccepts⟩
  | null | bool | num | arr | obj => cases h

variable {minimum n : Nat}

theorem accepts_integer (h : minimum ≤ n) : (integer minimum).Accepts n := by
  have hle : (minimum : ℚ) ≤ n := by exact_mod_cast h
  simp [Accepts, integer, Json.nat, hle]

theorem of_read_integer (h : (integer minimum).read? v = some n) :
    minimum ≤ n := by
  cases v with
  | num q =>
    simp only [integer, Option.ite_none_right_eq_some, Option.some.injEq] at h
    obtain ⟨⟨hden, hle⟩, rfl⟩ := h
    have hq : (q.num : ℚ) = q := (Rat.den_eq_one_iff q).1 hden
    rw [← hq] at hle
    have : (minimum : Int) ≤ q.num := by exact_mod_cast hle
    omega
  | null | bool | str | arr | obj => cases h

variable {q : ℚ}

theorem accepts_number {minimum : ℚ} (h : minimum ≤ q) : (number minimum).Accepts q := if_pos h

theorem of_read_number {minimum : ℚ} (h : (number minimum).read? v = some q) :
    minimum ≤ q := by
  cases v with
  | num p =>
    simp only [number, Option.ite_none_right_eq_some, Option.some.injEq] at h
    exact h.2 ▸ h.1
  | null | bool | str | arr | obj => cases h

variable {a : α}

theorem accepts_keyword [DecidableEq α] {values : List α} {name : α → String}
    {hname : ∀ a ∈ values, ∀ b, name a = name b → a = b} (h : a ∈ values) :
    (keyword values name hname).Accepts a := by
  show values.find? (fun b => name b = name a) = some a
  cases hfind : values.find? (fun b => name b = name a) with
  | none =>
    have hne := find?_eq_none.1 hfind a h
    simp at hne
  | some b =>
    have heq : name b = name a := by simpa using find?_some hfind
    rw [hname b (mem_of_find?_eq_some hfind) a heq]

/-! ## Arrays -/

variable {item : Shape α}

theorem accepts_list : ∀ {as : List α}, (∀ a ∈ as, item.Accepts a) →
    (list item).Accepts as := by
  intro as
  show _ → (as.map item.write).mapM item.read? = some as
  induction as with
  | nil => intro _; rfl
  | cons a as ih =>
    intro h
    have ha : item.read? (item.write a) = some a := h a (by simp)
    rw [map_cons, mapM_cons, ha, ih fun b hb => h b (mem_cons_of_mem _ hb)]
    rfl

variable {b : α}

/-- Different records are written differently. -/
theorem Accepts.write_ne (ha : item.Accepts a) (hb : item.Accepts b)
    (h : item.write a = item.write b) : a = b := by
  unfold Accepts at ha hb
  rw [h, hb] at ha
  exact (Option.some.inj ha).symm

variable {minItems maxItems : Nat} {uniqueItems : Bool} {as : List α}

theorem accepts_array (hmin : minItems ≤ as.length) (hmax : as.length ≤ maxItems)
    (hunique : uniqueItems = true → as.Nodup) (hitems : ∀ a ∈ as, item.Accepts a) :
    (array item minItems maxItems uniqueItems).Accepts as := by
  have hnodup : uniqueItems = true → (as.map item.write).Nodup := by
    intro h
    exact (hunique h).map_on fun a ha b hb => (hitems a ha).write_ne (hitems b hb)
  show (if _ then _ else none) = some as
  rw [if_pos ⟨by simpa using hmin, by simpa using hmax, hnodup⟩]
  exact accepts_list hitems

theorem of_read_array (h : (array item minItems maxItems uniqueItems).read? v = some as) :
    ∃ vs, v = .arr vs ∧ minItems ≤ as.length ∧ as.length ≤ maxItems ∧
      (uniqueItems = true → vs.Nodup) ∧
      List.Forall₂ (fun v a => item.read? v = some a) vs as := by
  cases v with
  | arr vs =>
    simp only [array, list, Option.ite_none_right_eq_some] at h
    obtain ⟨⟨hmin, hmax, hunique⟩, hread⟩ := h
    have hitems := Machine.mapM_eq_some hread
    have hlength := List.Forall₂.length_eq hitems
    exact ⟨vs, rfl, hlength ▸ hmin, hlength ▸ hmax, hunique, hitems⟩
  | null | bool | num | str | obj => cases h

theorem forall_of_read {P : α → Prop} (hitem : ∀ v a, item.read? v = some a → P a) {vs : List Json}
    (h : List.Forall₂ (fun v a => item.read? v = some a) vs as) : ∀ a ∈ as, P a := by
  induction h with
  | nil => simp
  | cons hread _ ih =>
    intro a ha
    rcases mem_cons.1 ha with rfl | ha
    · exact hitem _ _ hread
    · exact ih a ha

/-- An array of strings: the number of the strings, that they differ where they have to, and what
each of them passes. -/
theorem of_read_texts {as : List String}
    (h : (array (text accepts) minItems maxItems uniqueItems).read? v = some as) :
    minItems ≤ as.length ∧ as.length ≤ maxItems ∧ (uniqueItems = true → as.Nodup) ∧
      ∀ a ∈ as, accepts a = true := by
  obtain ⟨vs, -, hmin, hmax, hunique, hitems⟩ := of_read_array h
  refine ⟨hmin, hmax, ?_, forall_of_read (fun v a h => (of_read_text h).2) hitems⟩
  intro hu
  have hvs : vs = as.map .str := by
    clear h hmin hmax hunique
    induction hitems with
    | nil => rfl
    | cons hread _ ih => rw [map_cons, ← ih, (of_read_text hread).1]
  have hnodup := hunique hu
  rw [hvs] at hnodup
  exact hnodup.of_map _

/-! ## Records -/

namespace Fields

/-- The fields are read from every object that has them. -/
def Accepts (F : Fields ρ α) (r : ρ) : Prop :=
  ∀ fs : List (String × Json), (∀ k o, (k, o) ∈ F.write r → Json.field? k fs = o) →
    F.read? fs = some (F.get r)

theorem accepts_none (a : α) (r : ρ) : (none a : Fields ρ α).Accepts r := fun _ _ => rfl

variable {key : String} {shape : Shape β} {r : ρ}

variable {F : Fields ρ (β → α)} {get : ρ → β}

theorem Accepts.required (hF : F.Accepts r) (hget : shape.Accepts (get r)) :
    (F.required key shape get).Accepts r := by
  intro fs hfs
  have hread := hF fs fun k o hk => hfs k o (mem_append_left _ hk)
  have hfield : Json.field? key fs = some (shape.write (get r)) := hfs key _ (by
    simp [Fields.required])
  show (F.read? fs).bind _ = _
  rw [hread, Option.bind_some]
  show (Json.field? key fs).bind _ = _
  rw [hfield, Option.bind_some]
  show (shape.read? (shape.write (get r))).bind _ = _
  rw [hget]
  rfl

theorem Accepts.optional {F : Fields ρ (Option β → α)} {get : ρ → Option β} (hF : F.Accepts r)
    (hget : ∀ b ∈ get r, shape.Accepts b) :
    (F.optional key shape get).Accepts r := by
  intro fs hfs
  have hread := hF fs fun k o hk => hfs k o (mem_append_left _ hk)
  have hfield : Json.field? key fs = (get r).map shape.write := hfs key _ (by
    simp [Fields.optional])
  show (F.read? fs).bind _ = some (F.get r (get r))
  rw [hread, Option.bind_some, hfield]
  cases hr : get r with
  | none => rfl
  | some b =>
    have hb : shape.read? (shape.write b) = some b := hget b hr
    simp [hb]

variable {value : Json}

theorem Accepts.constant {F : Fields ρ α} (hF : F.Accepts r) :
    (F.constant key value).Accepts r := by
  intro fs hfs
  have hfield : Json.field? key fs = some value := hfs key _ (by simp [Fields.constant])
  show (if _ then _ else _) = _
  rw [if_pos hfield]
  exact hF fs fun k o hk => hfs k o (mem_append_left _ hk)

variable {fs : List (String × Json)}

theorem of_read_required (h : (F.required key shape get).read? fs = some a) :
    ∃ f v b, F.read? fs = some f ∧ shape.read? v = some b ∧ f b = a := by
  simp only [Fields.required, Option.bind_eq_bind, Option.bind_eq_some_iff, Option.pure_def,
    Option.some.injEq] at h
  obtain ⟨f, hf, v, -, b, hb, rfl⟩ := h
  exact ⟨f, v, b, hf, hb, rfl⟩

theorem of_read_optional {F : Fields ρ (Option β → α)} {get : ρ → Option β}
    (h : (F.optional key shape get).read? fs = some a) :
    ∃ f o, F.read? fs = some f ∧ (∀ b ∈ o, ∃ v, shape.read? v = some b) ∧ f o = a := by
  simp only [Fields.optional, Option.bind_eq_bind, Option.bind_eq_some_iff, Option.pure_def] at h
  obtain ⟨f, hf, h⟩ := h
  cases hfield : Json.field? key fs with
  | none =>
    rw [hfield] at h
    exact ⟨f, .none, hf, by simp, Option.some.inj h⟩
  | some v =>
    rw [hfield] at h
    obtain ⟨b, hb, h⟩ := Option.bind_eq_some_iff.1 h
    refine ⟨f, some b, hf, ?_, Option.some.inj h⟩
    rintro _ ⟨⟩
    exact ⟨v, hb⟩

theorem of_read_constant {F : Fields ρ α} (h : (F.constant key value).read? fs = some a) :
    F.read? fs = some a := by
  simp only [Fields.constant, Option.ite_none_right_eq_some] at h
  exact h.2

theorem of_read_none (h : (none a : Fields ρ α).read? fs = some b) :
    a = b := Option.some.inj h

end Fields

/-- A written record has no key besides its own. -/
theorem key_mem_of_mem_compact {f : String × Json} : ∀ {fs : List (String × Option Json)},
    f ∈ compact fs → f.1 ∈ fs.map Prod.fst := by
  intro fs
  induction fs with
  | nil => intro h; cases h
  | cons g fs ih =>
    obtain ⟨k, o⟩ := g
    intro h
    rw [compact, mem_append] at h
    rw [map_cons, mem_cons]
    rcases h with h | h
    · cases o with
      | none => cases h
      | some v => exact .inl (by rw [mem_singleton.1 h])
    · exact .inr (ih h)

variable {F : Fields ρ ρ} {r : ρ}

theorem accepts_object {hkeys : F.keys.Nodup} {hget : ∀ r, F.get r = r} (h : F.Accepts r) :
    (object F hkeys hget).Accepts r := by
  have hfind : ∀ k o, (k, o) ∈ F.write r → Json.field? k (compact (F.write r)) = o :=
    fun k o hk => field?_compact (by rw [F.write_keys r]; exact hkeys) hk
  have hall : (compact (F.write r)).all (fun f => F.keys.contains f.1) = true := by
    rw [all_eq_true]
    intro f hf
    have hmem := key_mem_of_mem_compact hf
    rw [F.write_keys r] at hmem
    simpa using hmem
  show (if _ then _ else _) = some r
  rw [if_pos hall, h _ hfind, hget r]

theorem of_read_object {hkeys : F.keys.Nodup} {hget : ∀ r, F.get r = r}
    (h : (object F hkeys hget).read? v = some r) :
    ∃ fs, v = .obj fs ∧ F.read? fs = some r := by
  cases v with
  | obj fs =>
    simp only [object, Option.ite_none_right_eq_some] at h
    exact ⟨fs, rfl, h.2⟩
  | null | bool | num | str | arr => cases h

end BeauPi.Shape
