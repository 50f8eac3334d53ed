import BeauPi.Tasks.Schema

/-!
# Which dependencies are accepted

`validateDependencies` rejects a list of tasks with a doubled id, a doubled, unknown or own
dependency, or a circle.

* `DependsOn` — the dependency relation of a list of tasks.
* `IsDag` — ids and dependencies are as they should be, and no task depends on itself.
* `validateDependencies_ok_iff` — **exactly these lists are accepted.**
-/

namespace BeauPi.Tasks

open Machine List

/-- A task of the list names the dependency. -/
def DependsOn (tasks : List (String × List String)) (id dependency : String) : Prop :=
  ∃ dependsOn, (id, dependsOn) ∈ tasks ∧ dependency ∈ dependsOn

/-- The tasks form a finite graph without a cycle. -/
structure IsDag (tasks : List (String × List String)) : Prop where
  ids : (tasks.map Prod.fst).Nodup
  unique : ∀ task ∈ tasks, task.2.Nodup
  known : ∀ task ∈ tasks, ∀ dependency ∈ task.2, dependency ∈ tasks.map Prod.fst
  notSelf : ∀ task ∈ tasks, task.1 ∉ task.2
  acyclic : ∀ id, ¬ Relation.TransGen (DependsOn tasks) id id

variable {tasks : List (String × List String)}

/-! ## The loops -/

theorem assertUnique_ok_iff {values : List String} {label : String} {taskId : Option String} :
    assertUnique values label taskId = .ok () ↔ values.Nodup := by
  unfold assertUnique
  split
  next h => simp [h]
  next h => simp [h]

/-- No id occurs twice, and none has been met before. -/
theorem collectTaskIds_ok : ∀ (ids seen : List String), ids.Nodup → (∀ id ∈ ids, id ∉ seen) →
    ∃ out, ids.foldlM collectTaskId seen = .ok out := by
  intro ids
  induction ids with
  | nil => intro seen _ _; exact ⟨seen, rfl⟩
  | cons id ids ih =>
    intro seen hnodup hnew
    rw [foldlM_cons, collectTaskId, if_neg (hnew id (by simp))]
    refine ih (id :: seen) (nodup_cons.1 hnodup).2 ?_
    intro x hx hseen
    rcases mem_cons.1 hseen with rfl | hseen
    · exact (nodup_cons.1 hnodup).1 hx
    · exact hnew x (mem_cons_of_mem _ hx) hseen

theorem assertUniqueTaskIds_ok_iff {ids : List String} :
    assertUniqueTaskIds ids = .ok () ↔ ids.Nodup := by
  unfold assertUniqueTaskIds
  constructor
  · intro h
    obtain ⟨out, hout, -⟩ := bind_eq_ok.1 h
    exact (collectTaskIds_nodup ids [] out hout).1
  · intro h
    obtain ⟨out, hout⟩ := collectTaskIds_ok ids [] h (by simp)
    rw [hout]
    rfl

/-- The dependencies of a task are different ids of other tasks. -/
theorem assertTaskDependencies_ok_iff {ids : List String} {id : String}
    {dependsOn : List String} :
    assertTaskDependencies ids id dependsOn = .ok () ↔
      dependsOn.Nodup ∧ ∀ dependency ∈ dependsOn, dependency ≠ id ∧ dependency ∈ ids := by
  unfold assertTaskDependencies
  rw [bind_eq_ok]
  constructor
  · rintro ⟨_, hunique, hloop⟩
    refine ⟨assertUnique_ok_iff.1 hunique, ?_⟩
    intro dependency hmem
    have hturn := forM_eq_ok hloop dependency hmem
    split at hturn
    next => cases hturn
    next hself =>
      split at hturn
      next => cases hturn
      next hknown => exact ⟨hself, not_not.1 hknown⟩
  · rintro ⟨hunique, hall⟩
    refine ⟨(), assertUnique_ok_iff.2 hunique, forM_ok ?_⟩
    intro dependency hmem
    obtain ⟨hself, hknown⟩ := hall dependency hmem
    rw [if_neg hself, if_neg (not_not.2 hknown)]

/-! ## The search -/

/-- The dependencies that the search follows are those that the tasks name. -/
theorem mem_dependenciesOf_iff (hids : (tasks.map Prod.fst).Nodup) {id dependency : String} :
    dependency ∈ dependenciesOf tasks id ↔ DependsOn tasks id dependency := by
  unfold dependenciesOf DependsOn
  cases hfind : tasks.find? (fun task => task.1 == id) with
  | none =>
    simp only [not_mem_nil, false_iff]
    rintro ⟨dependsOn, hmem, -⟩
    simpa using find?_eq_none.1 hfind (id, dependsOn) hmem
  | some task =>
    have hmem := mem_of_find?_eq_some hfind
    have hid : task.1 = id := by simpa using find?_some hfind
    constructor
    · intro h
      exact ⟨task.2, hid ▸ hmem, h⟩
    · rintro ⟨dependsOn, hmem', h⟩
      have heq : task = (id, dependsOn) :=
        inj_on_of_nodup_map hids hmem hmem' hid
      rw [heq]
      exact h

theorem assertNoCycle_ok_iff (hids : (tasks.map Prod.fst).Nodup)
    (hknown : ∀ task ∈ tasks, ∀ dependency ∈ task.2, dependency ∈ tasks.map Prod.fst) :
    assertNoCycle tasks = .ok () ↔ ∀ id, ¬ Relation.TransGen (DependsOn tasks) id id := by
  have hrelation : Machine.DependsOn (dependenciesOf tasks) = DependsOn tasks := by
    funext id dependency
    exact propext (mem_dependenciesOf_iff hids)
  have hsearch := @visitAll_ok_iff _ _ (dependenciesOf tasks) (tasks.map Prod.fst) (by
    intro a b h
    rw [hrelation] at h
    obtain ⟨dependsOn, hmem, hb⟩ := h
    exact ⟨mem_map_of_mem hmem, hknown _ hmem b hb⟩)
  rw [hrelation] at hsearch
  rw [← hsearch]
  unfold assertNoCycle
  cases visitAll (dependenciesOf tasks) (tasks.map Prod.fst) with
  | ok after => simp
  | error e => cases e <;> simp

/-- **`validateDependencies` accepts exactly the finite graphs without a cycle.** -/
theorem validateDependencies_ok_iff : validateDependencies tasks = .ok () ↔ IsDag tasks := by
  unfold validateDependencies
  rw [bind_eq_ok]
  constructor
  · rintro ⟨_, hids, h⟩
    obtain ⟨_, hdeps, hcycle⟩ := bind_eq_ok.1 h
    have hids := assertUniqueTaskIds_ok_iff.1 hids
    have hdeps := fun task htask => assertTaskDependencies_ok_iff.1 (forM_eq_ok hdeps task htask)
    have hknown := fun task htask dependency hmem => ((hdeps task htask).2 dependency hmem).2
    exact {
      ids := hids
      unique := fun task htask => (hdeps task htask).1
      known := hknown
      notSelf := fun task htask hself => ((hdeps task htask).2 _ hself).1 rfl
      acyclic := (assertNoCycle_ok_iff hids hknown).1 hcycle }
  · intro h
    refine ⟨(), assertUniqueTaskIds_ok_iff.2 h.ids, bind_eq_ok.2 ⟨(), forM_ok ?_, ?_⟩⟩
    · intro task htask
      refine assertTaskDependencies_ok_iff.2 ⟨h.unique task htask, ?_⟩
      intro dependency hmem
      exact ⟨fun hself => h.notSelf task htask (hself ▸ hmem), h.known task htask dependency hmem⟩
    · exact (assertNoCycle_ok_iff h.ids h.known).2 h.acyclic

/-- Tasks without dependencies form no cycle. -/
theorem isDag_of_independent (hids : (tasks.map Prod.fst).Nodup)
    (h : ∀ task ∈ tasks, task.2 = []) : IsDag tasks := by
  have hnone : ∀ a b, ¬ DependsOn tasks a b := by
    rintro a b ⟨dependsOn, hmem, hb⟩
    have hnil : dependsOn = [] := h _ hmem
    rw [hnil] at hb
    cases hb
  exact {
    ids := hids
    unique := fun task htask => by rw [h task htask]; exact nodup_nil
    known := fun task htask => by rw [h task htask]; simp
    notSelf := fun task htask => by rw [h task htask]; simp
    acyclic := fun id hcycle => by
      obtain ⟨b, -, hb⟩ := Relation.TransGen.tail'_iff.1 hcycle
      exact hnone b id hb }

end BeauPi.Tasks
