import BeauPi.Js.Json
import Mathlib.Tactic.Cases

/-!
# Shapes of JSON values

A runtime schema says which JSON values it accepts; a typed program reads an
accepted value as a record and writes records as values.  A `Shape α` is the three
together, and it carries its own correctness: what is read back from a written
record is that record.  Shapes are built from the combinators below, so a schema
of any size has its round trip by construction.

* `text`, `integer`, `number`, `boolean`, `keyword` — the scalars.
* `list`, `array` — arrays, with bounds on the number of items and `uniqueItems`.
* `Fields` — the fields of a record, required and optional, collected one by one.
* `object` — a strict object: the fields and nothing else.
-/

namespace BeauPi

open List

/-- A shape of JSON values: how a typed value is written, and which values are
read as a typed value. -/
structure Shape (α : Type) where
  /-- the value that represents `a` -/
  write : α → Json
  /-- the typed value of a JSON value the schema accepts -/
  read? : Json → Option α
  /-- reading back what was written gives it back, if the schema accepts it at all -/
  read?_write : ∀ {a b : α}, read? (write a) = some b → b = a

namespace Shape

variable {α β ρ : Type}

/-! ## Scalars -/

/-- A string that passes a check. -/
def text (accepts : String → Bool) : Shape String where
  write := .str
  read?
    | .str s => if accepts s then some s else none
    | _ => none
  read?_write := by
    intro a b h
    simp only [Option.ite_none_right_eq_some, Option.some.injEq] at h
    exact h.2.symm

/-- An integer that is at least `minimum`. -/
def integer (minimum : Nat) : Shape Nat where
  write n := .nat n
  read?
    | .num q => if q.den = 1 ∧ (minimum : ℚ) ≤ q then some q.num.toNat else none
    | _ => none
  read?_write := by
    intro a b h
    simp only [Json.nat, Option.ite_none_right_eq_some, Option.some.injEq] at h
    simpa using h.2.symm

/-- A number that is at least `minimum`. -/
def number (minimum : ℚ) : Shape ℚ where
  write := .num
  read?
    | .num q => if minimum ≤ q then some q else none
    | _ => none
  read?_write := by
    intro a b h
    simp only [Option.ite_none_right_eq_some, Option.some.injEq] at h
    exact h.2.symm

/-- Any number. -/
def anyNumber : Shape ℚ where
  write := .num
  read?
    | .num q => some q
    | _ => none
  read?_write := fun h => (Option.some.inj h).symm

/-- `true` or `false`. -/
def boolean : Shape Bool where
  write := .bool
  read?
    | .bool b => some b
    | _ => none
  read?_write := fun h => (Option.some.inj h).symm

/-- A union of string literals: `name` gives the literal of each value. -/
def keyword [DecidableEq α] (values : List α) (name : α → String)
    (hname : ∀ a ∈ values, ∀ b, name a = name b → a = b) : Shape α where
  write a := .str (name a)
  read?
    | .str s => values.find? fun a => name a = s
    | _ => none
  read?_write := by
    intro a b h
    have hb := mem_of_find?_eq_some h
    have hs := find?_some h
    exact hname b hb a (by simpa using hs)

/-! ## Arrays -/

/-- An array of values of one shape, of any length. -/
def list (item : Shape α) : Shape (List α) where
  write as := .arr (as.map item.write)
  read?
    | .arr vs => vs.mapM item.read?
    | _ => none
  read?_write := by
    intro as bs h
    simp only at h
    induction as generalizing bs with
    | nil => simpa using h
    | cons a as ih =>
      simp only [map_cons, mapM_cons, Option.bind_eq_bind, Option.bind_eq_some_iff,
        Option.pure_def, Option.some.injEq] at h
      obtain ⟨b, hb, bs', hbs, rfl⟩ := h
      rw [item.read?_write hb, ih hbs]

/-- An array with bounds on the number of its items, which may have to be different. -/
def array (item : Shape α) (minItems maxItems : Nat) (uniqueItems : Bool) : Shape (List α) where
  write := (list item).write
  read?
    | .arr vs =>
      if minItems ≤ vs.length ∧ vs.length ≤ maxItems ∧ (uniqueItems = true → vs.Nodup) then
        (list item).read? (.arr vs)
      else none
    | _ => none
  read?_write := by
    intro as bs h
    simp only [list, Option.ite_none_right_eq_some] at h
    exact (list item).read?_write h.2

/-! ## Records -/

/-- A field list without the fields that are `undefined`. -/
def compact : List (String × Option Json) → List (String × Json)
  | [] => []
  | (k, o) :: rest => Json.optField k o ++ compact rest

theorem field?_optField_append (key k : String) (o : Option Json) (rest : List (String × Json)) :
    Json.field? key (Json.optField k o ++ rest) =
      if k = key then o.or (Json.field? key rest) else Json.field? key rest := by
  cases o with
  | none => simp [Json.optField]
  | some v => by_cases h : k = key <;> simp [Json.optField, Json.field?, h]

theorem field?_compact_of_notMem {key : String} {fs : List (String × Option Json)}
    (h : key ∉ fs.map Prod.fst) : Json.field? key (compact fs) = none := by
  induction fs with
  | nil => rfl
  | cons f fs ih =>
    obtain ⟨k, o⟩ := f
    simp only [map_cons, mem_cons, not_or] at h
    rw [compact, field?_optField_append, if_neg (Ne.symm h.1), ih h.2]

/-- In a written record each field is found under its key. -/
theorem field?_compact {key : String} {o : Option Json} {fs : List (String × Option Json)}
    (hnodup : (fs.map Prod.fst).Nodup) (h : (key, o) ∈ fs) :
    Json.field? key (compact fs) = o := by
  induction fs with
  | nil => cases h
  | cons f fs ih =>
    obtain ⟨k, o'⟩ := f
    rw [map_cons, nodup_cons] at hnodup
    rw [compact, field?_optField_append]
    rcases mem_cons.1 h with heq | hmem
    · cases heq
      rw [if_pos rfl, field?_compact_of_notMem hnodup.1, Option.or_none]
    · have hne : k ≠ key := by
        rintro rfl
        exact hnodup.1 (mem_map.2 ⟨(k, o), hmem, rfl⟩)
      rw [if_neg hne, ih hnodup.2 hmem]

/-- Some fields of a record of type `ρ`, and the value `get` of type `α` that they
determine. -/
structure Fields (ρ α : Type) where
  /-- the keys, in the order in which they are written -/
  keys : List String
  /-- what a record has under each key -/
  write : ρ → List (String × Option Json)
  /-- the value of the fields found in an object -/
  read? : List (String × Json) → Option α
  /-- what the fields determine -/
  get : ρ → α
  write_keys : ∀ r, (write r).map Prod.fst = keys
  read?_write : ∀ {r : ρ} {fs : List (String × Json)} {a : α},
    (∀ k o, (k, o) ∈ write r → Json.field? k fs = o) → read? fs = some a → a = get r

namespace Fields

/-- No field. -/
def none (a : α) : Fields ρ α where
  keys := []
  write _ := []
  read? _ := some a
  get _ := a
  write_keys _ := rfl
  read?_write := by
    intro r fs b _ h
    exact (Option.some.inj h).symm

/-- A field that must be there. -/
def required (F : Fields ρ (β → α)) (key : String) (shape : Shape β) (get : ρ → β) :
    Fields ρ α where
  keys := F.keys ++ [key]
  write r := F.write r ++ [(key, some (shape.write (get r)))]
  read? fs := do
    let f ← F.read? fs
    let v ← Json.field? key fs
    let b ← shape.read? v
    return f b
  get r := F.get r (get r)
  write_keys r := by simp [F.write_keys r]
  read?_write := by
    intro r fs a hfs h
    simp only [Option.bind_eq_bind, Option.bind_eq_some_iff, Option.pure_def,
      Option.some.injEq] at h
    obtain ⟨f, hf, v, hv, b, hb, rfl⟩ := h
    have hvr : Json.field? key fs = some (shape.write (get r)) := hfs key _ (by simp)
    rw [hvr] at hv
    obtain rfl := Option.some.inj hv
    have hrest : ∀ k o, (k, o) ∈ F.write r → Json.field? k fs = o :=
      fun k o hk => hfs k o (mem_append_left _ hk)
    rw [F.read?_write hrest hf, shape.read?_write hb]

/-- A field that may be absent. -/
def optional (F : Fields ρ (Option β → α)) (key : String) (shape : Shape β)
    (get : ρ → Option β) : Fields ρ α where
  keys := F.keys ++ [key]
  write r := F.write r ++ [(key, (get r).map shape.write)]
  read? fs := do
    let f ← F.read? fs
    match Json.field? key fs with
    | .none => return f .none
    | some v =>
      let b ← shape.read? v
      return f (some b)
  get r := F.get r (get r)
  write_keys r := by simp [F.write_keys r]
  read?_write := by
    intro r fs a hfs h
    simp only [Option.bind_eq_bind, Option.bind_eq_some_iff, Option.pure_def] at h
    obtain ⟨f, hf, h⟩ := h
    have hrest : ∀ k o, (k, o) ∈ F.write r → Json.field? k fs = o :=
      fun k o hk => hfs k o (mem_append_left _ hk)
    have hvr : Json.field? key fs = (get r).map shape.write := hfs key _ (by simp)
    rw [hvr] at h
    rw [F.read?_write hrest hf] at h
    cases hr : get r with
    | none =>
      rw [hr] at h
      exact (Option.some.inj h).symm
    | some b =>
      rw [hr] at h
      simp only [Option.map_some, Option.bind_eq_some_iff, Option.some.injEq] at h
      obtain ⟨b', hb', rfl⟩ := h
      rw [shape.read?_write hb']

/-- A field whose value is fixed. -/
def constant (F : Fields ρ α) (key : String) (value : Json) : Fields ρ α where
  keys := F.keys ++ [key]
  write r := F.write r ++ [(key, some value)]
  read? fs := if Json.field? key fs = some value then F.read? fs else .none
  get := F.get
  write_keys r := by simp [F.write_keys r]
  read?_write := by
    intro r fs a hfs h
    simp only [Option.ite_none_right_eq_some] at h
    exact F.read?_write (fun k o hk => hfs k o (mem_append_left _ hk)) h.2

@[simp] theorem keys_none (a : α) : (none a : Fields ρ α).keys = [] := rfl

@[simp] theorem keys_required (F : Fields ρ (β → α)) (key : String) (shape : Shape β)
    (get : ρ → β) : (F.required key shape get).keys = F.keys ++ [key] := rfl

@[simp] theorem keys_optional (F : Fields ρ (Option β → α)) (key : String) (shape : Shape β)
    (get : ρ → Option β) : (F.optional key shape get).keys = F.keys ++ [key] := rfl

@[simp] theorem keys_constant (F : Fields ρ α) (key : String) (value : Json) :
    (F.constant key value).keys = F.keys ++ [key] := rfl

end Fields

/-- A strict object: the given fields, and no other. -/
def object (F : Fields ρ ρ) (hkeys : F.keys.Nodup) (hget : ∀ r, F.get r = r) : Shape ρ where
  write r := .obj (compact (F.write r))
  read?
    | .obj fs => if fs.all fun f => F.keys.contains f.1 then F.read? fs else none
    | _ => none
  read?_write := by
    intro r r' h
    simp only [Option.ite_none_right_eq_some] at h
    have hfind : ∀ k o, (k, o) ∈ F.write r → Json.field? k (compact (F.write r)) = o := by
      intro k o hk
      exact field?_compact (by rw [F.write_keys r]; exact hkeys) hk
    rw [F.read?_write hfind h.2, hget r]

end Shape
end BeauPi

/-! ## Session entries

The branch of a session is a list of entries.  The runtimes of this repository persist their records
in `custom` entries, each under a type of its own; they skip the entries of every other kind. -/

namespace BeauPi.Session

/-- `SessionEntry`, as far as the runtimes look at it. -/
inductive SessionEntry
  /-- `entry.type === "custom"` -/
  | custom (customType : String) (data : Option Json)
  /-- an entry of another type -/
  | other (type : String)
  deriving DecidableEq

end BeauPi.Session
