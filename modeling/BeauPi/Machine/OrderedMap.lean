import Mathlib.Data.List.Nodup
import Mathlib.Data.List.Basic

/-!
# Maps that remember the order of insertion

The JavaScript `Map`: a finite map whose entries are enumerated in the order in
which their keys were first set.  Setting a key that is present replaces its
value and keeps its place; deleting a key and setting it again moves it to the
end.  The entries carry a proof that no key occurs twice.
-/

namespace BeauPi.Machine

open List

/-- A finite map with its entries in insertion order. -/
structure OrderedMap (κ ν : Type) where
  /-- The entries, oldest key first. -/
  entries : List (κ × ν)
  /-- No key occurs twice. -/
  nodup : (entries.map Prod.fst).Nodup

namespace OrderedMap

variable {κ ν : Type} [DecidableEq κ]

/-- Replace the value at `k` in place, or append a new entry. -/
def setEntry (k : κ) (v : ν) : List (κ × ν) → List (κ × ν)
  | [] => [(k, v)]
  | (a, b) :: r => if a = k then (a, v) :: r else (a, b) :: setEntry k v r

/-- The value at `k`, if there is one. -/
def getEntry (k : κ) : List (κ × ν) → Option ν
  | [] => none
  | (a, b) :: r => if a = k then some b else getEntry k r

variable {k a : κ} {v : ν} {l : List (κ × ν)}

theorem mem_setEntry_keys :
    a ∈ (setEntry k v l).map Prod.fst ↔ a = k ∨ a ∈ l.map Prod.fst := by
  induction l with
  | nil => simp [setEntry]
  | cons p r ih =>
    obtain ⟨b, w⟩ := p
    by_cases h : b = k
    · subst h; simp [setEntry]
    · simp only [setEntry, if_neg h, map_cons, mem_cons, ih]
      tauto

/-- An entry of the map after a key is set is the new one or an old one. -/
theorem mem_setEntry {p : κ × ν} (h : p ∈ setEntry k v l) :
    p.2 = v ∨ p ∈ l := by
  induction l with
  | nil =>
    simp only [setEntry, mem_singleton] at h
    exact .inl (by rw [h])
  | cons q r ih =>
    obtain ⟨b, w⟩ := q
    by_cases hb : b = k
    · simp only [setEntry, if_pos hb, mem_cons] at h
      rcases h with rfl | h
      · exact .inl rfl
      · exact .inr (mem_cons_of_mem _ h)
    · simp only [setEntry, if_neg hb, mem_cons] at h
      rcases h with rfl | h
      · exact .inr mem_cons_self
      · exact (ih h).imp_right (mem_cons_of_mem _)

theorem nodup_setEntry (h : (l.map Prod.fst).Nodup) :
    ((setEntry k v l).map Prod.fst).Nodup := by
  induction l with
  | nil => simp [setEntry]
  | cons p r ih =>
    obtain ⟨b, w⟩ := p
    rw [map_cons, nodup_cons] at h
    by_cases hb : b = k
    · simp only [setEntry, if_pos hb, map_cons, nodup_cons]; exact h
    · simp only [setEntry, if_neg hb, map_cons, nodup_cons, mem_setEntry_keys]
      exact ⟨by rintro (rfl | h'); exacts [hb rfl, h.1 h'], ih h.2⟩

omit [DecidableEq κ] in
theorem nodup_filter_keys (p : κ × ν → Bool) (h : (l.map Prod.fst).Nodup) :
    ((l.filter p).map Prod.fst).Nodup :=
  h.sublist (filter_sublist.map _)

/-- The map with no entries. -/
def empty : OrderedMap κ ν := ⟨[], by simp⟩

instance : Inhabited (OrderedMap κ ν) := ⟨⟨[], by simp⟩⟩

/-- `Map.prototype.get`. -/
def get? (m : OrderedMap κ ν) (k : κ) : Option ν := getEntry k m.entries

/-- `Map.prototype.set`. -/
def set (m : OrderedMap κ ν) (k : κ) (v : ν) : OrderedMap κ ν :=
  ⟨setEntry k v m.entries, nodup_setEntry m.nodup⟩

/-- `Map.prototype.delete`. -/
def delete (m : OrderedMap κ ν) (k : κ) : OrderedMap κ ν :=
  ⟨m.entries.filter fun p => decide (p.1 ≠ k), nodup_filter_keys _ m.nodup⟩

/-- `Map.prototype.keys`. -/
def keys (m : OrderedMap κ ν) : List κ := m.entries.map Prod.fst

/-- `Map.prototype.values`. -/
def values (m : OrderedMap κ ν) : List ν := m.entries.map Prod.snd

/-- `Map.prototype.size`. -/
def size (m : OrderedMap κ ν) : Nat := m.entries.length

/-- `Map.prototype.has`. -/
def has (m : OrderedMap κ ν) (k : κ) : Bool := (m.get? k).isSome

/-- Apply a function to every value. -/
def mapValues (m : OrderedMap κ ν) (f : ν → ν) : OrderedMap κ ν :=
  ⟨m.entries.map fun p => (p.1, f p.2), by
    have : (m.entries.map fun p => (p.1, f p.2)).map Prod.fst = m.entries.map Prod.fst := by simp
    rw [this]; exact m.nodup⟩

/-- Apply a function to the values under the given keys. -/
def adjust (m : OrderedMap κ ν) (ks : List κ) (f : ν → ν) : OrderedMap κ ν :=
  ⟨m.entries.map fun p => (p.1, if p.1 ∈ ks then f p.2 else p.2), by
    have : (m.entries.map fun p => (p.1, if p.1 ∈ ks then f p.2 else p.2)).map Prod.fst =
        m.entries.map Prod.fst := by simp
    rw [this]; exact m.nodup⟩

/-! ## How the operations compose -/

theorem getEntry_eq_some (h : (l.map Prod.fst).Nodup) :
    getEntry k l = some v ↔ (k, v) ∈ l := by
  induction l with
  | nil => simp [getEntry]
  | cons p r ih =>
    obtain ⟨b, w⟩ := p
    rw [map_cons, nodup_cons] at h
    by_cases hb : b = k
    · subst hb
      simp only [getEntry, if_true, Option.some.injEq, mem_cons, Prod.mk.injEq, true_and]
      constructor
      · rintro rfl; exact Or.inl rfl
      · rintro (rfl | hm)
        · rfl
        · exact absurd (mem_map.2 ⟨(b, v), hm, rfl⟩) h.1
    · simp only [getEntry, if_neg hb, ih h.2, mem_cons, Prod.mk.injEq]
      constructor
      · exact Or.inr
      · rintro (⟨rfl, -⟩ | hm)
        · exact absurd rfl hb
        · exact hm

theorem getEntry_eq_none :
    getEntry k l = none ↔ k ∉ l.map Prod.fst := by
  induction l with
  | nil => simp [getEntry]
  | cons p r ih =>
    obtain ⟨b, w⟩ := p
    by_cases hb : b = k
    · simp [getEntry, hb]
    · simp [getEntry, hb, Ne.symm hb, ih]

variable {m : OrderedMap κ ν}

theorem get?_eq_some :
    m.get? k = some v ↔ (k, v) ∈ m.entries :=
  getEntry_eq_some m.nodup

theorem get?_eq_none : m.get? k = none ↔ k ∉ m.keys := by
  rw [← not_iff_not, not_not, Option.eq_none_iff_forall_ne_some, not_forall]
  simp only [not_not, get?_eq_some, keys, mem_map, Prod.exists, exists_and_right,
    exists_eq_right]

@[simp] theorem get?_empty (k : κ) : (empty : OrderedMap κ ν).get? k = none := rfl

theorem getEntry_setEntry (k a : κ) (v : ν) (l : List (κ × ν)) :
    getEntry a (setEntry k v l) = if a = k then some v else getEntry a l := by
  induction l with
  | nil =>
    by_cases h : a = k
    · simp [setEntry, getEntry, h]
    · simp [setEntry, getEntry, h, Ne.symm h]
  | cons p r ih =>
    obtain ⟨b, w⟩ := p
    by_cases hb : b = k
    · subst hb
      by_cases ha : a = b
      · subst ha; simp [setEntry, getEntry]
      · simp [setEntry, getEntry, ha, Ne.symm ha]
    · simp only [setEntry, if_neg hb, getEntry, ih]
      by_cases ha : b = a
      · subst ha; simp [hb]
      · simp [ha]

theorem get?_set (m : OrderedMap κ ν) (k a : κ) (v : ν) :
    (m.set k v).get? a = if a = k then some v else m.get? a :=
  getEntry_setEntry k a v m.entries

@[simp] theorem get?_set_self (m : OrderedMap κ ν) (k : κ) (v : ν) :
    (m.set k v).get? k = some v := by
  rw [get?_set, if_pos rfl]

theorem setEntry_of_none (h : getEntry k l = none) :
    setEntry k v l = l ++ [(k, v)] := by
  induction l with
  | nil => rfl
  | cons p r ih =>
    obtain ⟨b, w⟩ := p
    by_cases hb : b = k
    · simp [getEntry, hb] at h
    · simp only [getEntry, if_neg hb] at h
      simp [setEntry, if_neg hb, ih h]

/-- A new key comes last. -/
theorem entries_set_of_none (h : m.get? k = none) (v : ν) :
    (m.set k v).entries = m.entries ++ [(k, v)] :=
  setEntry_of_none h

theorem get?_set_ne (m : OrderedMap κ ν) (v : ν) (h : a ≠ k) :
    (m.set k v).get? a = m.get? a := by
  rw [get?_set, if_neg h]

theorem get?_delete (m : OrderedMap κ ν) (k a : κ) :
    (m.delete k).get? a = if a = k then none else m.get? a := by
  by_cases h : a = k
  · rw [if_pos h, get?_eq_none]
    simp [keys, delete, h]
  · rw [if_neg h]
    refine Option.ext fun v => ?_
    rw [get?_eq_some, get?_eq_some]
    simp [delete, h]

@[simp] theorem get?_delete_self (m : OrderedMap κ ν) (k : κ) : (m.delete k).get? k = none := by
  rw [get?_delete, if_pos rfl]

theorem get?_delete_ne (m : OrderedMap κ ν) (h : a ≠ k) :
    (m.delete k).get? a = m.get? a := by
  rw [get?_delete, if_neg h]

theorem get?_mapValues (m : OrderedMap κ ν) (f : ν → ν) (k : κ) :
    (m.mapValues f).get? k = (m.get? k).map f := by
  refine Option.ext fun v => ?_
  rw [get?_eq_some, Option.map_eq_some_iff]
  simp only [mapValues, mem_map, Prod.mk.injEq, Prod.exists, get?_eq_some]
  constructor
  · rintro ⟨a, b, hab, rfl, rfl⟩; exact ⟨b, hab, rfl⟩
  · rintro ⟨b, hb, rfl⟩; exact ⟨k, b, hb, rfl, rfl⟩

theorem get?_adjust (m : OrderedMap κ ν) (ks : List κ) (f : ν → ν) (k : κ) :
    (m.adjust ks f).get? k = (m.get? k).map fun v => if k ∈ ks then f v else v := by
  refine Option.ext fun v => ?_
  rw [get?_eq_some, Option.map_eq_some_iff]
  simp only [adjust, mem_map, Prod.mk.injEq, Prod.exists, get?_eq_some]
  constructor
  · rintro ⟨a, b, hab, rfl, rfl⟩; exact ⟨b, hab, rfl⟩
  · rintro ⟨b, hb, rfl⟩; exact ⟨k, b, hb, rfl, rfl⟩

theorem mem_values_iff : v ∈ m.values ↔ ∃ k, m.get? k = some v := by
  simp [values, get?_eq_some]

/-- A table whose entries are set under their own keys. -/
theorem key_of_get?_foldl (key : ν → κ) (vs : List ν) {m : OrderedMap κ ν}
    (hm : ∀ k v, m.get? k = some v → key v = k) :
    ∀ k v, (vs.foldl (fun table v => table.set (key v) v) m).get? k = some v → key v = k := by
  induction vs generalizing m with
  | nil => exact hm
  | cons first rest ih =>
    refine ih fun k v h => ?_
    rw [get?_set] at h
    split_ifs at h with hk
    · cases h
      exact hk.symm
    · exact hm k v h

theorem size_eq_zero_iff : m.size = 0 ↔ ∀ k, m.get? k = none := by
  rw [size, length_eq_zero_iff]
  constructor
  · intro h k; simp [get?, h, getEntry]
  · intro h
    cases hm : m.entries with
    | nil => rfl
    | cons p r =>
      have := h p.1
      simp [get?, hm, getEntry] at this

end OrderedMap
/-! ## Lists that are tables

The entries of such a list are known by their positions: they are changed in place, and new ones are
added at the end. -/

variable {α : Type}

theorem getElem?_modify_eq {l : List α} {i j : Nat} {f : α → α} {b : α} :
    (l.modify i f)[j]? = some b ↔ ∃ a, l[j]? = some a ∧ b = if i = j then f a else a := by
  rw [getElem?_modify]
  cases l[j]? with
  | none => simp
  | some a =>
    simp only [Option.map_eq_map, Option.map_some, Option.some.injEq, exists_eq_left']
    exact eq_comm

theorem getElem?_concat_eq {l : List α} {j : Nat} {a b : α} :
    (l ++ [a])[j]? = some b ↔ l[j]? = some b ∨ (j = l.length ∧ b = a) := by
  rcases Nat.lt_trichotomy j l.length with hlt | rfl | hgt
  · rw [getElem?_append_left hlt]
    constructor
    · exact .inl
    · rintro (h | ⟨h, -⟩)
      · exact h
      · omega
  · simp [eq_comm]
  · have hnone : l[j]? = none := getElem?_eq_none (by omega)
    have hnone' : (l ++ [a])[j]? = none := getElem?_eq_none (by simp; omega)
    simp only [hnone, hnone', reduceCtorEq, false_or, false_iff]
    omega

end BeauPi.Machine
