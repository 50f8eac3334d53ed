import Mathlib.Data.List.Nodup
import Mathlib.Data.List.Perm.Subperm
import Mathlib.Logic.Relation

/-!
# Everything that can be reached from a node

The breadth-first loop that collects the nodes reachable from a start node in at
least one step: a queue of nodes to expand and the set of nodes found so far.

* `expand` — one round: the new successors of a node go to the end of both.
* `closureFrom` — the loop, on a fuel argument.
* `mem_closure_iff` — **the loop finds exactly the nodes reachable in one step or
  more**, with one unit of fuel per node and one for the start.
-/

namespace BeauPi.Machine

open List

variable {α : Type} [DecidableEq α] (next : α → List α)

/-- Add a node to the queue and to the set of found nodes unless it is there. -/
def discover (state : List α × List α) (x : α) : List α × List α :=
  if x ∈ state.2 then state else (state.1 ++ [x], state.2 ++ [x])

/-- One round: discover the successors of a node. -/
def expand (node : α) (queue found : List α) : List α × List α :=
  (next node).foldl discover (queue, found)

/-- The loop: take a node off the queue and expand it. -/
def closureFrom : Nat → List α → List α → List α
  | 0, _, found => found
  | _ + 1, [], found => found
  | fuel + 1, node :: queue, found =>
    closureFrom fuel (expand next node queue found).1 (expand next node queue found).2

/-- The nodes reachable from `start` in one step or more, among at most `size`. -/
def closure (size : Nat) (start : α) : List α := closureFrom next (size + 1) [start] []

/-! ## One round -/

/-- What discovering a list of nodes does: the same new nodes are appended to the
queue and to the found nodes, and afterwards every node of the list is found. -/
theorem foldl_discover (xs : List α) : ∀ (queue found : List α), found.Nodup →
    ∃ new, xs.foldl discover (queue, found) = (queue ++ new, found ++ new) ∧
      (found ++ new).Nodup ∧ new ⊆ xs ∧ xs ⊆ found ++ new := by
  induction xs with
  | nil => intro queue found h; exact ⟨[], by simp, by simpa using h, by simp, by simp⟩
  | cons x xs ih =>
    intro queue found h
    rw [foldl_cons]
    by_cases hx : x ∈ found
    · obtain ⟨new, heq, hnd, hsub, hall⟩ := ih queue found h
      refine ⟨new, ?_, hnd, fun y hy => mem_cons_of_mem _ (hsub hy), ?_⟩
      · rw [discover, if_pos hx]; exact heq
      · intro y hy
        rcases mem_cons.1 hy with rfl | hy
        · exact mem_append_left _ hx
        · exact hall hy
    · have hnd' : (found ++ [x]).Nodup := by
        rw [nodup_append]
        refine ⟨h, by simp, ?_⟩
        rintro a ha b hb rfl
        exact hx (mem_singleton.1 hb ▸ ha)
      obtain ⟨new, heq, hnd, hsub, hall⟩ := ih (queue ++ [x]) (found ++ [x]) hnd'
      refine ⟨x :: new, ?_, by simpa using hnd, ?_, ?_⟩
      · rw [discover, if_neg hx, heq]; simp
      · intro y hy
        rcases mem_cons.1 hy with rfl | hy
        · exact mem_cons_self ..
        · exact mem_cons_of_mem _ (hsub hy)
      · intro y hy
        rcases mem_cons.1 hy with rfl | hy
        · simp
        · simpa using hall hy

/-! ## The loop -/

/-- What holds before every round: the expanded nodes and the queue are the start
followed by the found nodes, the successors of expanded nodes are found, and
everything found can be reached. -/
structure ClosureInv (start : α) (expanded queue found : List α) : Prop where
  order : expanded ++ queue = start :: found
  nodup : found.Nodup
  closed : ∀ x ∈ expanded, next x ⊆ found
  reachable : ∀ x ∈ found, Relation.TransGen (fun a b => b ∈ next a) start x

theorem ClosureInv.expand {start node : α} {expanded queue found : List α}
    (h : ClosureInv next start expanded (node :: queue) found) :
    ClosureInv next start (expanded ++ [node]) (Machine.expand next node queue found).1
      (Machine.expand next node queue found).2 := by
  obtain ⟨new, heq, hnd, hsub, hall⟩ := foldl_discover (next node) queue found h.nodup
  rw [Machine.expand, heq]
  have hnode : node = start ∨ node ∈ found := by
    have : node ∈ start :: found := h.order ▸ (by simp)
    exact mem_cons.1 this
  refine ⟨?_, hnd, ?_, ?_⟩
  · have := congrArg (· ++ new) h.order
    simpa using this
  · intro x hx
    rcases mem_append.1 hx with hx | hx
    · exact fun y hy => mem_append_left _ (h.closed x hx hy)
    · rw [mem_singleton.1 hx]; exact hall
  · intro x hx
    rcases mem_append.1 hx with hx | hx
    · exact h.reachable x hx
    · rcases hnode with rfl | hfound
      · exact .single (hsub hx)
      · exact .tail (h.reachable node hfound) (hsub hx)

/-- With enough fuel the loop ends with everything reachable. -/
theorem mem_closureFrom {nodes : List α} (hnext : ∀ x, next x ⊆ nodes) {start : α} :
    ∀ (fuel : Nat) (expanded queue found : List α), ClosureInv next start expanded queue found →
      nodes.length + 1 ≤ fuel + expanded.length →
      ∀ x, x ∈ closureFrom next fuel queue found ↔
        Relation.TransGen (fun a b => b ∈ next a) start x := by
  -- when the queue is empty, the start and all found nodes have been expanded
  have hdone : ∀ expanded found, ClosureInv next start expanded [] found →
      ∀ x, x ∈ found ↔ Relation.TransGen (fun a b => b ∈ next a) start x := by
    intro expanded found h x
    have horder : expanded = start :: found := by simpa using h.order
    refine ⟨h.reachable x, ?_⟩
    intro hx
    induction hx with
    | single hb => exact h.closed start (by simp [horder]) hb
    | tail _ hbc ih => exact h.closed _ (by simp [horder, ih]) hbc
  intro fuel
  induction fuel with
  | zero =>
    intro expanded queue found h hfuel
    have hsub : found ⊆ nodes := by
      intro x hx
      obtain ⟨y, -, hy⟩ := (Relation.TransGen.tail'_iff.1 (h.reachable x hx))
      exact hnext y hy
    have hlen := (h.nodup.subperm hsub).length_le
    have horder := congrArg List.length h.order
    simp only [length_append, length_cons] at horder
    have hq : queue = [] := eq_nil_of_length_eq_zero (by omega)
    subst hq
    exact hdone expanded found h
  | succ fuel ih =>
    intro expanded queue found h hfuel
    cases queue with
    | nil => exact hdone expanded found h
    | cons node queue =>
      refine ih (expanded ++ [node]) _ _ h.expand ?_
      rw [length_append, length_singleton]
      omega

/-- **The loop finds exactly what can be reached.** -/
theorem mem_closure_iff {nodes : List α} (hnext : ∀ x, next x ⊆ nodes) {start x : α} :
    x ∈ closure next nodes.length start ↔
      Relation.TransGen (fun a b => b ∈ next a) start x := by
  refine mem_closureFrom next hnext _ [] [start] [] ?_ (by simp) x
  exact ⟨by simp, by simp, by simp, by simp⟩

end BeauPi.Machine
