import Mathlib.Data.Set.Finite.List
import Mathlib.Logic.Relation
import Mathlib.Order.WellFounded
import Mathlib.Data.Fintype.Card

/-!
# Walks along a partial function, and sweeps over a graph

Two loops that end only where the graph they follow lets them.

* `walk` — follows a partial function from node to node.
* `walk_cycle`, `walk_ends` — on a finite set of nodes it ends exactly where there is no cycle.
* `sweep` — takes a node off a stack and puts its children on it.
* `sweep_perm`, `sweep_order` — what has been taken off at the end, and in which order.
* `sweep_ends` — if no node comes onto the stack twice, the loop ends.
-/

namespace BeauPi.Machine

open Relation List

/-! ## Walks -/

section Walk

variable {α : Type} (next : α → Option α)

/-- The loop that follows a function from a node on; `none` if it takes more than `n` turns. -/
def walk : Nat → Option α → Option (List α)
  | _, none => some []
  | 0, some _ => none
  | n + 1, some a => (walk n (next a)).map (a :: ·)

/-- The walk from `a` comes to `b` next. -/
def StepsTo (a b : α) : Prop := next a = some b

variable {next} {a b : α} {n : Nat} {path : List α}

theorem walk_succ (n : Nat) (a : α) :
    walk next (n + 1) (some a) = (walk next n (next a)).map (a :: ·) := rfl

/-- The walk from the next node ends earlier. -/
theorem walk_of_stepsTo (h : StepsTo next a b) (hw : walk next n (some a) = some path) :
    ∃ m, m < n ∧ ∃ rest, walk next m (some b) = some rest ∧ path = a :: rest := by
  cases n with
  | zero => cases hw
  | succ n =>
    rw [walk_succ, h] at hw
    obtain ⟨rest, hrest, rfl⟩ := Option.map_eq_some_iff.1 hw
    exact ⟨n, Nat.lt_succ_self n, rest, hrest, rfl⟩

theorem walk_of_transGen (h : TransGen (StepsTo next) a b)
    (hw : walk next n (some a) = some path) :
    ∃ m, m < n ∧ ∃ rest, walk next m (some b) = some rest := by
  induction h with
  | single h =>
    obtain ⟨m, hm, rest, hrest, -⟩ := walk_of_stepsTo h hw
    exact ⟨m, hm, rest, hrest⟩
  | tail _ h ih =>
    obtain ⟨m, hm, rest, hrest⟩ := ih
    obtain ⟨k, hk, rest', hrest', -⟩ := walk_of_stepsTo h hrest
    exact ⟨k, by omega, rest', hrest'⟩

/-- **From a node of a cycle the walk never ends.** -/
theorem walk_cycle (h : TransGen (StepsTo next) a a) (n : Nat) :
    walk next n (some a) = none := by
  induction n using Nat.strong_induction_on with
  | _ n ih =>
    cases hw : walk next n (some a) with
    | none => rfl
    | some path =>
      obtain ⟨m, hm, rest, hrest⟩ := walk_of_transGen h hw
      rw [ih m hm] at hrest
      cases hrest

/-- More turns than a walk takes do not change it. -/
theorem walk_le {m : Nat} (hle : n ≤ m) {start : Option α} (h : walk next n start = some path) :
    walk next m start = some path := by
  induction n generalizing m start path with
  | zero =>
    cases start with
    | none => cases m <;> exact h
    | some a => cases h
  | succ n ih =>
    obtain ⟨m, rfl⟩ : ∃ k, m = k + 1 := ⟨m - 1, by omega⟩
    cases start with
    | none => exact h
    | some a =>
      rw [walk_succ] at h ⊢
      obtain ⟨rest, hrest, rfl⟩ := Option.map_eq_some_iff.1 h
      rw [ih (by omega) hrest]
      rfl

/-- A walk ends if one ends that goes the same way and stops no earlier. -/
theorem walk_sub {next' : α → Option α} (hsub : ∀ a b, StepsTo next' a b → StepsTo next a b)
    (h : walk next n (some a) = some path) : ∃ path', walk next' n (some a) = some path' := by
  induction n generalizing a path with
  | zero => cases h
  | succ n ih =>
    rw [walk_succ] at h ⊢
    obtain ⟨rest, hrest, rfl⟩ := Option.map_eq_some_iff.1 h
    cases hnext : next' a with
    | none => exact ⟨[a], by cases n <;> rfl⟩
    | some b =>
      rw [show next a = some b from hsub a b hnext] at hrest
      obtain ⟨path', hpath'⟩ := ih hrest
      exact ⟨a :: path', by rw [hpath']; rfl⟩

/-- Induction along a relation without a cycle on finitely many nodes. -/
theorem acyclic_induction {r : α → α → Prop} {nodes : List α} {holds : α → Prop}
    (hacyclic : ∀ a ∈ nodes, ¬TransGen r a a)
    (hstep : ∀ a ∈ nodes, (∀ b ∈ nodes, r a b → holds b) → holds a) (ha : a ∈ nodes) :
    holds a := by
  let below : {x // x ∈ nodes} → {x // x ∈ nodes} → Prop := fun x y => TransGen r y.1 x.1
  have : Finite {x // x ∈ nodes} := (finite_toSet nodes).to_subtype
  have : IsTrans _ below := ⟨fun x y z hxy hyz => hyz.trans hxy⟩
  have : Std.Irrefl below := ⟨fun x hx => hacyclic x.1 x.2 hx⟩
  have hwf : WellFounded below := Finite.wellFounded_of_trans_of_irrefl below
  suffices h : ∀ x : {x // x ∈ nodes}, holds x.1 from h ⟨a, ha⟩
  intro x
  induction x using hwf.induction with
  | _ x ih => exact hstep x.1 x.2 fun b hb hxb => ih ⟨b, hb⟩ (.single hxb)

/-- **In a finite set of nodes without a cycle every walk ends.** -/
theorem walk_ends {nodes : List α} (hclosed : ∀ a ∈ nodes, ∀ b, StepsTo next a b → b ∈ nodes)
    (hacyclic : ∀ a ∈ nodes, ¬TransGen (StepsTo next) a a) (ha : a ∈ nodes) :
    ∃ n path, walk next n (some a) = some path := by
  refine @acyclic_induction α a (StepsTo next) nodes
    (fun a => ∃ n path, walk next n (some a) = some path) hacyclic (fun a ha ih => ?_) ha
  cases hnext : next a with
  | none => exact ⟨1, [a], by rw [walk_succ, hnext]; rfl⟩
  | some b =>
    obtain ⟨n, path, hpath⟩ := ih b (hclosed a ha b hnext) hnext
    exact ⟨n + 1, a :: path, by rw [walk_succ, hnext, hpath]; rfl⟩

end Walk

/-! ## Sweeps -/

section Sweep

variable {σ α : Type} (expand : σ → α → σ × List α)

/-- The loop that takes the top of a stack, lets a state expand it and puts the children on the
stack, the last one on top.  The result is the state and the nodes in the order in which they
are taken; `none` if the loop takes more than `n` turns. -/
def sweep : Nat → σ → List α → Option (σ × List α)
  | _, s, [] => some (s, [])
  | 0, _, _ :: _ => none
  | n + 1, s, a :: stack =>
    (sweep n (expand s a).1 ((expand s a).2.reverse ++ stack)).map fun r => (r.1, a :: r.2)

variable {expand} {kids : α → List α} {good : σ → Prop} {n : Nat} {s t : σ}
  {stack seen past : List α}

/-- In good states a node is expanded to its children, in some order. -/
structure Expands (expand : σ → α → σ × List α) (kids : α → List α) (good : σ → Prop) : Prop where
  keeps : ∀ s a, good s → good (expand s a).1
  perm : ∀ s a, good s → (expand s a).2.Perm (kids a)

theorem sweep_cons (n : Nat) (s : σ) (a : α) (stack : List α) :
    sweep expand (n + 1) s (a :: stack) =
      (sweep expand n (expand s a).1 ((expand s a).2.reverse ++ stack)).map
        fun r => (r.1, a :: r.2) := rfl

theorem sweep_nil (n : Nat) (s : σ) : sweep expand n s [] = some (s, []) := by
  cases n <;> rfl

/-- **What is taken is what was on the stack and the children of what is taken.** -/
theorem sweep_perm (hexpand : Expands expand kids good) (hs : good s)
    (h : sweep expand n s stack = some (t, seen)) :
    seen.Perm (stack ++ seen.flatMap kids) := by
  induction n generalizing s stack seen with
  | zero =>
    cases stack with
    | nil => cases h; exact .refl _
    | cons a stack => cases h
  | succ n ih =>
    cases stack with
    | nil => cases h; exact .refl _
    | cons a stack =>
      rw [sweep_cons] at h
      obtain ⟨⟨t', rest⟩, hrest, heq⟩ := Option.map_eq_some_iff.1 h
      obtain ⟨rfl, rfl⟩ := Prod.mk.inj heq
      have hperm := ih (hexpand.keeps s a hs) hrest
      have hkids : ((expand s a).2.reverse).Perm (kids a) :=
        (reverse_perm _).trans (hexpand.perm s a hs)
      rw [flatMap_cons, cons_append]
      refine .cons a (hperm.trans ?_)
      rw [append_assoc]
      refine (hkids.append_right _).trans ?_
      rw [← append_assoc, ← append_assoc]
      exact perm_append_comm.append_right _

/-- **A node is taken because it was on the stack, or after the node whose child it is.** -/
theorem sweep_order (hexpand : Expands expand kids good) (hs : good s)
    (h : sweep expand n s stack = some (t, seen)) :
    ∀ before c after, seen = before ++ c :: after → c ∈ stack ∨ ∃ p ∈ before, c ∈ kids p := by
  induction n generalizing s stack seen with
  | zero =>
    cases stack with
    | nil => cases h; intro before c after heq; simp at heq
    | cons a stack => cases h
  | succ n ih =>
    cases stack with
    | nil => cases h; intro before c after heq; simp at heq
    | cons a stack =>
      rw [sweep_cons] at h
      obtain ⟨⟨t', rest⟩, hrest, heq⟩ := Option.map_eq_some_iff.1 h
      obtain ⟨rfl, rfl⟩ := Prod.mk.inj heq
      intro before c after hsplit
      cases before with
      | nil =>
        obtain ⟨rfl, -⟩ := List.cons.inj hsplit
        exact .inl mem_cons_self
      | cons b before =>
        obtain ⟨rfl, htail⟩ := List.cons.inj hsplit
        rcases ih (hexpand.keeps s a hs) hrest before c after htail with hmem | ⟨p, hp, hc⟩
        · rcases mem_append.1 hmem with hkid | hstack
          · refine .inr ⟨a, mem_cons_self, ?_⟩
            exact (hexpand.perm s a hs).mem_iff.1 (mem_reverse.1 hkid)
          · exact .inl (mem_cons_of_mem _ hstack)
        · exact .inr ⟨p, mem_cons_of_mem _ hp, hc⟩

/-- A node has one parent at most, and is a child of it once. -/
structure Treelike (kids : α → List α) (nodes : List α) : Prop where
  mem : ∀ p, ∀ c ∈ kids p, c ∈ nodes
  once : ∀ p, (kids p).Nodup
  unique : ∀ p q c, c ∈ kids p → c ∈ kids q → p = q

/-- **If no node comes onto the stack twice, the loop ends and takes no node twice.** -/
theorem sweep_ends {nodes : List α} (past stack : List α) (hexpand : Expands expand kids good)
    (htree : Treelike kids nodes) (hs : good s) (hnodup : (past ++ stack).Nodup)
    (hmem : ∀ a ∈ past ++ stack, a ∈ nodes)
    (hparent : ∀ c ∈ past ++ stack, ∀ p, c ∈ kids p → p ∈ past) :
    ∃ n t seen, sweep expand n s stack = some (t, seen) ∧ (past ++ seen).Nodup := by
  -- every turn takes a node that has not been taken: the nodes not taken get fewer
  induction hk : nodes.length - past.length generalizing s past stack with
  | zero =>
    have hsub := (hnodup.subperm hmem).length_le
    rw [length_append] at hsub
    obtain rfl : stack = [] := length_eq_zero_iff.1 (by omega)
    exact ⟨0, s, [], sweep_nil 0 s, by simpa using hnodup⟩
  | succ k ih =>
    cases stack with
    | nil => exact ⟨0, s, [], sweep_nil 0 s, by simpa using hnodup⟩
    | cons a stack =>
      have hkids : ((expand s a).2.reverse).Perm (kids a) :=
        (reverse_perm _).trans (hexpand.perm s a hs)
      have hperm : (past ++ [a] ++ ((expand s a).2.reverse ++ stack)).Perm
          (kids a ++ (past ++ a :: stack)) := by
        rw [← append_assoc]
        refine ((hkids.append_left (past ++ [a])).append_right stack).trans ?_
        refine (perm_append_comm.append_right stack).trans ?_
        simp
      have ha : a ∉ past := by
        have := (nodup_append.1 hnodup).2.2
        exact fun hmem => this a hmem a mem_cons_self rfl
      have hfresh : ∀ c ∈ kids a, c ∉ past ++ a :: stack :=
        fun c hc hold => ha (hparent c hold a hc)
      obtain ⟨n, t, seen, hseen, hall⟩ := ih (past ++ [a])
        ((expand s a).2.reverse ++ stack) (hexpand.keeps s a hs)
        (hperm.nodup_iff.2 (nodup_append.2 ⟨htree.once a, hnodup, fun x hx y hy heq =>
          hfresh x hx (heq ▸ hy)⟩))
        (fun c hc => (mem_append.1 (hperm.mem_iff.1 hc)).elim (htree.mem a c) (hmem c))
        (fun c hc p hp => by
          rcases mem_append.1 (hperm.mem_iff.1 hc) with hkid | hold
          · exact mem_append_right _ (by rw [htree.unique p a c hp hkid]; simp)
          · exact mem_append_left _ (hparent c hold p hp))
        (by rw [length_append, length_singleton]; omega)
      refine ⟨n + 1, t, a :: seen, by rw [sweep_cons, hseen]; rfl, ?_⟩
      simpa using hall

end Sweep

/-! ## Children by their parents -/

section Children

variable {α β : Type} [DecidableEq α]

/-- Among different keys, one has one item more. -/
theorem flatMap_update_perm {keys : List α} {f g : α → List β} {p : α} {x : β}
    (hnodup : keys.Nodup) (hp : p ∈ keys) (hat : g p = x :: f p) (hne : ∀ q, q ≠ p → g q = f q) :
    (keys.flatMap g).Perm (x :: keys.flatMap f) := by
  induction keys with
  | nil => cases hp
  | cons q keys ih =>
    obtain ⟨hq, hnodup⟩ := nodup_cons.1 hnodup
    rw [flatMap_cons, flatMap_cons]
    by_cases hqp : q = p
    · subst hqp
      have hrest : keys.flatMap g = keys.flatMap f :=
        flatMap_congr fun r hr => hne r fun heq => hq (heq ▸ hr)
      rw [hat, hrest, cons_append]
    · rw [hne q hqp]
      refine ((ih hnodup ((mem_cons.1 hp).resolve_left (Ne.symm hqp))).append_left _).trans ?_
      exact perm_middle

/-- The items without a key and the items of each key are all items. -/
theorem groups_perm {keys : List α} (hnodup : keys.Nodup) (key : β → Option α) (items : List β)
    (hkeys : ∀ x ∈ items, ∀ p, key x = some p → p ∈ keys) :
    (items.filter (fun x => key x = none) ++
      keys.flatMap fun p => items.filter fun x => key x = some p).Perm items := by
  induction items with
  | nil => simp
  | cons x items ih =>
    have hrest := ih fun y hy => hkeys y (mem_cons_of_mem _ hy)
    cases hx : key x with
    | none =>
      simp only [filter_cons, hx, decide_true, if_true, reduceCtorEq, decide_false,
        Bool.false_eq_true, if_false, cons_append]
      exact hrest.cons x
    | some p =>
      have hperm := flatMap_update_perm (f := fun q => items.filter fun y => key y = some q)
        (g := fun q => (x :: items).filter fun y => key y = some q) (x := x) hnodup
        (hkeys x mem_cons_self p hx) (by simp [hx])
        (fun q hq => by simp [hx, Ne.symm hq])
      simp only [filter_cons_of_neg (p := fun y => decide (key y = none)) (a := x)
        (l := items) (by simp [hx])]
      refine ((hperm.append_left _).trans perm_middle).trans (hrest.cons x)

end Children

end BeauPi.Machine
