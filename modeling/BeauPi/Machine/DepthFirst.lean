import BeauPi.Machine.Fallible
import Mathlib.Data.List.Perm.Subperm
import Mathlib.Data.List.Nodup
import Mathlib.Logic.Function.Basic
import Mathlib.Logic.Relation
import Mathlib.Order.WellFounded

/-!
# Depth-first search for a dependency cycle

The three-colour search: a node is unseen, being visited, or visited, and meeting
a node that is being visited closes a cycle.  The recursion is on a fuel argument
that counts the nodes not yet on the search path.

* `visit`, `visitAll` — the search from one node, and from every node in turn.
* `visitAll_acc` — **a search that ends without an error certifies that the
  dependency relation is well founded** below every node it started from.
* `visitAll_ne_outOfFuel` — the fuel handed to the search is always enough, so
  the only error it reports is a cycle.
* `visitAll_ne_cycle` — a cycle is reported only if there is one.
* `visitAll_ok_iff` — **the search succeeds exactly on the relations without a cycle.**
-/

namespace BeauPi.Machine

open List
open Function (update_of_ne)

/-- The two marks a node can carry during the search. -/
inductive VisitState
  | visiting
  | visited
  deriving DecidableEq, Repr

/-- How a search can fail. -/
inductive SearchError (α : Type)
  /-- A node on the search path was met again: the cycle, and the node. -/
  | cycle (path : List α) (node : α)
  | outOfFuel
  deriving DecidableEq, Repr

variable {α : Type} [DecidableEq α] (deps : α → List α)

/-- Visit a node and everything it depends on. -/
def visit : Nat → (α → Option VisitState) → List α → α →
    Except (SearchError α) (α → Option VisitState)
  | 0, _, _, _ => .error .outOfFuel
  | fuel + 1, states, path, node =>
    match states node with
    | some .visited => .ok states
    | some .visiting => .error (.cycle (path.dropWhile (fun x => decide (x ≠ node)) ++ [node]) node)
    | none =>
      match (deps node).foldlM (fun st d => visit fuel st (path ++ [node]) d)
          (Function.update states node (some .visiting)) with
      | .error e => .error e
      | .ok after => .ok (Function.update after node (some .visited))

/-- Visit every node of a list, starting from a state with no marks. -/
def visitAll (nodes : List α) : Except (SearchError α) (α → Option VisitState) :=
  nodes.foldlM (fun st n => visit deps (nodes.length + 1) st [] n) (fun _ => none)

/-! ## A clean search certifies the order -/

/-- Every visited node is accessible for the dependency relation. -/
def AccVisited (states : α → Option VisitState) : Prop :=
  ∀ m, states m = some .visited → Acc (fun d n => d ∈ deps n) m

/-- Visited nodes stay visited. -/
def KeepsVisited (before after : α → Option VisitState) : Prop :=
  ∀ m, before m = some .visited → after m = some .visited

omit [DecidableEq α] in
theorem KeepsVisited.trans {a b c : α → Option VisitState} (h : KeepsVisited a b)
    (h' : KeepsVisited b c) : KeepsVisited a c :=
  fun m hm => h' m (h m hm)

theorem keepsVisited_update_none {states : α → Option VisitState} {node : α} {v : VisitState}
    (h : states node = none) : KeepsVisited states (Function.update states node (some v)) := by
  intro m hm
  have : m ≠ node := by rintro rfl; rw [h] at hm; cases hm
  rw [update_of_ne this]
  exact hm

theorem keepsVisited_update_visited (states : α → Option VisitState) (node : α) :
    KeepsVisited states (Function.update states node (some .visited)) := by
  intro m hm
  by_cases h : m = node
  · subst h; simp
  · rw [update_of_ne h]; exact hm

/-- What one visit does: it keeps the visited nodes, visits its own node, and
everything it marks as visited is accessible. -/
def VisitSpec (before : α → Option VisitState) (node : α) (after : α → Option VisitState) : Prop :=
  KeepsVisited before after ∧ after node = some .visited ∧ AccVisited deps after

omit [DecidableEq α] in
/-- Visiting a list of nodes one after the other: what an earlier visit marked
stays marked, so at the end all of them are visited. -/
theorem foldlM_visitSpec {ε : Type}
    {f : (α → Option VisitState) → α → Except ε (α → Option VisitState)}
    (hf : ∀ st d st', f st d = .ok st' → AccVisited deps st → VisitSpec deps st d st') :
    ∀ (ds : List α) (st st' : α → Option VisitState), AccVisited deps st →
      ds.foldlM f st = .ok st' →
      KeepsVisited st st' ∧ AccVisited deps st' ∧ ∀ d ∈ ds, st' d = some .visited := by
  intro ds
  induction ds with
  | nil => intro st st' hst h; cases h; exact ⟨fun m hm => hm, hst, by simp⟩
  | cons d ds ih =>
    intro st st' hst h
    rw [foldlM_cons] at h
    cases hd : f st d with
    | error e => rw [hd] at h; cases h
    | ok st₁ =>
      rw [hd] at h
      obtain ⟨hk₁, hd₁, ha₁⟩ := hf st d st₁ hd hst
      obtain ⟨hk₂, ha₂, hds⟩ := ih st₁ st' ha₁ h
      refine ⟨hk₁.trans hk₂, ha₂, ?_⟩
      intro x hx
      rcases List.mem_cons.1 hx with rfl | hx
      · exact hk₂ x hd₁
      · exact hds x hx

theorem visit_spec : ∀ (fuel : Nat) (states : α → Option VisitState) (path : List α) (node : α)
    (after : α → Option VisitState), visit deps fuel states path node = .ok after →
      AccVisited deps states → VisitSpec deps states node after := by
  intro fuel
  induction fuel with
  | zero => intro states path node after h; cases h
  | succ fuel ih =>
    intro states path node after h hacc
    rw [visit] at h
    split at h
    next hv => cases h; exact ⟨fun m hm => hm, hv, hacc⟩
    next => cases h
    next hnone =>
      split at h
      next => cases h
      next mid hmid =>
        cases h
        have hstart : AccVisited deps (Function.update states node (some .visiting)) := by
          intro m hm
          have hne : m ≠ node := by rintro rfl; simp at hm
          rw [update_of_ne hne] at hm
          exact hacc m hm
        obtain ⟨hk, ha, hdeps⟩ := foldlM_visitSpec deps
          (fun st d st' hd hst => ih st (path ++ [node]) d st' hd hst) (deps node) _ mid hstart hmid
        refine ⟨((keepsVisited_update_none hnone).trans hk).trans
          (keepsVisited_update_visited mid node), by simp, ?_⟩
        intro m hm
        by_cases hmn : m = node
        · subst hmn
          exact Acc.intro _ fun d hd => ha d (hdeps d hd)
        · rw [update_of_ne hmn] at hm
          exact ha m hm

variable {nodes : List α}

/-- **A search that reports no cycle certifies the order.** -/
theorem visitAll_acc {after : α → Option VisitState} (h : visitAll deps nodes = .ok after) :
    ∀ n ∈ nodes, Acc (fun d n => d ∈ deps n) n := by
  intro n hn
  obtain ⟨-, ha, hns⟩ := foldlM_visitSpec deps
    (fun st d st' hd hst => visit_spec deps (nodes.length + 1) st [] d st' hd hst) nodes _ after
    (fun m hm => by cases hm) h
  exact ha n (hns n hn)

/-! ## The fuel is enough -/

/-- A visit that ends leaves the nodes under visit as it found them. -/
theorem visit_visiting : ∀ (fuel : Nat) (states : α → Option VisitState) (path : List α) (node : α)
    (after : α → Option VisitState), visit deps fuel states path node = .ok after →
      ∀ x, after x = some .visiting ↔ states x = some .visiting := by
  intro fuel
  induction fuel with
  | zero => intro states path node after h; cases h
  | succ fuel ih =>
    intro states path node after h x
    rw [visit] at h
    split at h
    next hv => cases h; rfl
    next => cases h
    next hnone =>
      split at h
      next => cases h
      next mid hmid =>
        cases h
        have hfold : ∀ (ds : List α) (st st' : α → Option VisitState),
            ds.foldlM (fun st d => visit deps fuel st (path ++ [node]) d) st = .ok st' →
            (st' x = some .visiting ↔ st x = some .visiting) := by
          intro ds
          induction ds with
          | nil => intro st st' hf; cases hf; rfl
          | cons d ds ihds =>
            intro st st' hf
            rw [foldlM_cons] at hf
            cases hd : visit deps fuel st (path ++ [node]) d with
            | error e => rw [hd] at hf; cases hf
            | ok st₁ =>
              rw [hd] at hf
              exact (ihds st₁ st' hf).trans (ih st (path ++ [node]) d st₁ hd x)
        by_cases hx : x = node
        · subst hx; simp [hnone]
        · rw [update_of_ne hx, hfold (deps node) _ mid hmid, update_of_ne hx]

/-- As long as the path holds exactly the nodes under visit, the fuel lasts: every
level of the recursion adds a new node to the path. -/
theorem visit_ne_outOfFuel (hclosed : ∀ n ∈ nodes, ∀ d ∈ deps n, d ∈ nodes) :
    ∀ (fuel : Nat) (states : α → Option VisitState) (path : List α) (node : α), node ∈ nodes →
      path ⊆ nodes → path.Nodup → (∀ x, states x = some .visiting ↔ x ∈ path) →
      nodes.length + 1 ≤ fuel + path.length →
      visit deps fuel states path node ≠ .error .outOfFuel := by
  intro fuel
  induction fuel with
  | zero =>
    intro states path node _ hsub hnd _ hlen
    have := (hnd.subperm hsub).length_le
    omega
  | succ fuel ih =>
    intro states path node hnode hsub hnd hpath hlen h
    rw [visit] at h
    split at h
    next => cases h
    next => cases h
    next hnone =>
      have hnotin : node ∉ path := by
        intro hmem
        rw [(hpath node).2 hmem] at hnone
        cases hnone
      have hsub' : path ++ [node] ⊆ nodes := by
        intro x hx
        rcases List.mem_append.1 hx with hx | hx
        · exact hsub hx
        · rw [List.mem_singleton.1 hx]; exact hnode
      have hnd' : (path ++ [node]).Nodup := by
        rw [nodup_append]
        refine ⟨hnd, by simp, ?_⟩
        rintro a ha b hb rfl
        exact hnotin (List.mem_singleton.1 hb ▸ ha)
      split at h
      next e he =>
        injection h with h
        subst h
        refine foldlM_ne_error
          (I := fun st => ∀ x, st x = some .visiting ↔ x ∈ path ++ [node]) ?_ ?_ ?_ he
        · intro st d hd hst
          refine ih st (path ++ [node]) d (hclosed node hnode d hd) hsub' hnd' hst ?_
          rw [length_append, length_singleton]
          omega
        · intro st d _ hst st' hd x
          rw [visit_visiting deps fuel st (path ++ [node]) d st' hd x]
          exact hst x
        · intro x
          by_cases hx : x = node
          · subst hx; simp
          · rw [update_of_ne hx, hpath x]
            simp [hx]
      next => cases h

/-- **The search never runs out of fuel** when the dependencies of its nodes are
among its nodes. -/
theorem visitAll_ne_outOfFuel (hclosed : ∀ n ∈ nodes, ∀ d ∈ deps n, d ∈ nodes) :
    visitAll deps nodes ≠ .error .outOfFuel := by
  refine foldlM_ne_error (I := fun st => ∀ x, st x ≠ some .visiting) ?_ ?_ (by simp)
  · intro st n hn hst
    exact visit_ne_outOfFuel deps hclosed _ st [] n hn (by simp) (by simp)
      (fun x => by simp [hst x]) (by simp)
  · intro st n _ hst st' h x hx
    exact hst x ((visit_visiting deps _ st [] n st' h x).1 hx)

/-! ## A reported cycle is one -/

/-- The second node is a dependency of the first. -/
def DependsOn (a b : α) : Prop := b ∈ deps a

/-- Every node on the path depends on the one that is visited next. -/
def Leads (path : List α) (node : α) : Prop := ∀ x ∈ path, Relation.TransGen (DependsOn deps) x node

omit [DecidableEq α] in
/-- The path leads on to the dependencies of its last node. -/
theorem Leads.snoc {path : List α} {node d : α} (h : Leads deps path node) (hd : d ∈ deps node) :
    Leads deps (path ++ [node]) d := by
  intro x hx
  rcases List.mem_append.1 hx with hx | hx
  · exact (h x hx).tail hd
  · rw [List.mem_singleton.1 hx]
    exact .single hd

variable {n : α}

/-- A visit closes a cycle at a node only if the node depends on itself. -/
theorem visit_ne_cycle {cycle : List α} (hn : ¬ Relation.TransGen (DependsOn deps) n n) :
    ∀ (fuel : Nat) (states : α → Option VisitState) (path : List α) (node : α),
      Leads deps path node → (∀ x, states x = some .visiting → x ∈ path) →
      visit deps fuel states path node ≠ .error (.cycle cycle n) := by
  intro fuel
  induction fuel with
  | zero => intro states path node _ _ h; cases h
  | succ fuel ih =>
    intro states path node hleads hpath h
    rw [visit] at h
    split at h
    next => cases h
    next hvisiting =>
      cases h
      exact hn (hleads n (hpath n hvisiting))
    next hnone =>
      split at h
      next e he =>
        injection h with h
        subst h
        refine foldlM_ne_error (I := fun st => ∀ x, st x = some .visiting → x ∈ path ++ [node])
          ?_ ?_ ?_ he
        · intro st d hd hst
          exact ih st (path ++ [node]) d (hleads.snoc deps hd) hst
        · intro st d _ hst st' hd x hx
          exact hst x ((visit_visiting deps fuel st (path ++ [node]) d st' hd x).1 hx)
        · intro x hx
          by_cases hxn : x = node
          · simp [hxn]
          · rw [update_of_ne hxn] at hx
            exact mem_append_left _ (hpath x hx)
      next => cases h

/-- **A cycle is reported only if there is one.** -/
theorem visitAll_ne_cycle {cycle : List α} (hn : ¬ Relation.TransGen (DependsOn deps) n n) :
    visitAll deps nodes ≠ .error (.cycle cycle n) := by
  refine foldlM_ne_error (I := fun st => ∀ x, st x ≠ some .visiting) ?_ ?_ (by simp)
  · intro st m _ hst
    refine visit_ne_cycle deps hn _ st [] m ?_ fun x hx => absurd hx (hst x)
    simp [Leads]
  · intro st m _ hst st' h x hx
    exact hst x ((visit_visiting deps _ st [] m st' h x).1 hx)

omit [DecidableEq α] in
/-- A node below which the order is well founded lies on no cycle. -/
theorem not_cycle_of_acc (h : Acc (fun d n => d ∈ deps n) n) :
    ¬ Relation.TransGen (DependsOn deps) n n := by
  have hacc : ∀ m, Acc (Relation.TransGen fun d n => d ∈ deps n) m →
      ¬ Relation.TransGen (fun d n => d ∈ deps n) m m := by
    intro m hm
    induction hm with
    | intro m _ ih => exact fun hback => ih m hback hback
  exact fun hcycle => hacc n h.transGen (Relation.transGen_swap.1 hcycle)

/-- **The search succeeds exactly if no node depends on itself**, when dependencies lead from
nodes to nodes. -/
theorem visitAll_ok_iff (hnodes : ∀ a b, DependsOn deps a b → a ∈ nodes ∧ b ∈ nodes) :
    (∃ after, visitAll deps nodes = .ok after) ↔
      ∀ n, ¬ Relation.TransGen (DependsOn deps) n n := by
  constructor
  · rintro ⟨after, h⟩ n hcycle
    obtain ⟨b, hb, -⟩ := Relation.TransGen.head'_iff.1 hcycle
    exact not_cycle_of_acc deps (visitAll_acc deps h n (hnodes n b hb).1) hcycle
  · intro hacyclic
    cases h : visitAll deps nodes with
    | ok after => exact ⟨after, rfl⟩
    | error e =>
      cases e with
      | outOfFuel => exact absurd h (visitAll_ne_outOfFuel deps fun n _ d hd => (hnodes n d hd).2)
      | cycle cycle n => exact absurd h (visitAll_ne_cycle deps (hacyclic n))

end BeauPi.Machine
