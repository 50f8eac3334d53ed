import Mathlib.Data.List.Basic

/-!
# Trees that grow at a leaf

A tree lists its nodes with their parents.  A node is added below the leaf and becomes the leaf;
the leaf can be moved to any node.

* `BranchTree` — every parent stands before its children.
* `append`, `moveTo` — the two ways in which a tree changes.
* `Above` — is a node on the way from the root to another one?
* `Above.append`, `above_append` — it stays there, and is above what is added below it.
-/

namespace BeauPi.Machine

open List

/-- Nodes with their parents, and the node that the next one is added below. -/
structure BranchTree (α : Type) where
  nodes : List (Option Nat × α)
  leaf : Option Nat
  parents : ∀ (i p : Nat) (value : α), nodes[i]? = some (some p, value) → p < i
  leaf_lt : ∀ l : Nat, leaf = some l → l < nodes.length

namespace BranchTree

variable {α : Type}

/-- The tree without nodes. -/
def empty : BranchTree α where
  nodes := []
  leaf := none
  parents := by simp
  leaf_lt := by simp

variable (tree : BranchTree α)

/-- What a node holds. -/
def value? (i : Nat) : Option α := tree.nodes[i]?.map (·.2)

/-- A node is added below the leaf. -/
def append (value : α) : BranchTree α where
  nodes := tree.nodes ++ [(tree.leaf, value)]
  leaf := some tree.nodes.length
  parents := by
    intro i p v h
    rcases Nat.lt_or_ge i tree.nodes.length with hlt | hge
    · rw [getElem?_append_left hlt] at h
      exact tree.parents i p v h
    · rw [getElem?_append_right hge, getElem?_singleton] at h
      split at h
      next hzero =>
        simp only [Option.some.injEq, Prod.mk.injEq] at h
        exact Nat.lt_of_lt_of_le (tree.leaf_lt p h.1) hge
      next => cases h
  leaf_lt := by
    intro l h
    obtain rfl := Option.some.inj h
    simp

/-- The leaf is moved. -/
def moveTo (leaf : Option Nat) (h : ∀ l, leaf = some l → l < tree.nodes.length) : BranchTree α where
  nodes := tree.nodes
  leaf := leaf
  parents := tree.parents
  leaf_lt := h

/-- The first node is the second one, or on the way to it. -/
inductive Above : Nat → Nat → Prop
  | self (i : Nat) : Above i i
  | child {i p j : Nat} {value : α} (h : tree.nodes[j]? = some (some p, value)) (above : Above i p)
    :
    Above i j

variable {tree} {i j k : Nat} {value : α}

theorem Above.le (h : tree.Above i j) : i ≤ j := by
  induction h with
  | self => exact Nat.le_refl _
  | child hparent _ ih => exact Nat.le_of_lt (Nat.lt_of_le_of_lt ih (tree.parents _ _ _ hparent))

/-- The way to a node is as before when another one is added. -/
theorem Above.append (h : tree.Above i j) (value : α) : (tree.append value).Above i j := by
  induction h with
  | self => exact .self i
  | child hparent _ ih =>
    have hlt := (List.getElem?_eq_some_iff.1 hparent).1
    exact .child ((getElem?_append_left hlt).trans hparent) ih

/-- **What is above the leaf is above the node that is added.** -/
theorem above_append {l : Nat} (hleaf : tree.leaf = some l) (h : tree.Above i l) (value : α) :
    (tree.append value).Above i tree.nodes.length := by
  refine @BranchTree.Above.child _ _ _ _ _ value ?_ (h.append value)
  simp [BranchTree.append, hleaf]

theorem value?_append_of_some (h : tree.value? i = some value) (value' : α) :
    (tree.append value').value? i = some value := by
  obtain ⟨node, hnode, hvalue⟩ := Option.map_eq_some_iff.1 h
  have hlt : i < tree.nodes.length := (List.getElem?_eq_some_iff.1 hnode).1
  rw [value?, BranchTree.append, getElem?_append_left hlt, hnode, Option.map_some, hvalue]

@[simp] theorem value?_append_new (value : α) :
    (tree.append value).value? tree.nodes.length = some value := by
  simp [value?, BranchTree.append]

/-- A node holds what was added, or was there before. -/
theorem value?_append_cases {value' : α} (h : (tree.append value').value? i = some value) :
    tree.value? i = some value ∨ i = tree.nodes.length ∧ value = value' := by
  rcases Nat.lt_trichotomy i tree.nodes.length with hlt | heq | hgt
  · refine .inl ?_
    rwa [value?, BranchTree.append, getElem?_append_left hlt] at h
  · subst heq
    rw [value?_append_new] at h
    exact .inr ⟨rfl, (Option.some.inj h).symm⟩
  · have hnone : (tree.append value').nodes[i]? = none := by
      rw [List.getElem?_eq_none_iff]
      simp only [BranchTree.append, length_append, length_singleton]
      omega
    simp [value?, hnone] at h

end BranchTree
end BeauPi.Machine
