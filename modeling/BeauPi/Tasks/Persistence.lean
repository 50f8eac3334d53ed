import BeauPi.Tasks.Steps

/-!
# Dynamic Tasks: persistence refines the live state

A runtime keeps a snapshot and a history in memory and writes one session entry for
every accepted mutation; `rebuild` reads them back and drops, without a word, every
entry that is invalid or not of the next revision.  The two agree after every
sequence of operations.

* `Persisted` — the branch restores the snapshot and the history that are in memory.
* `perform_persisted` — **every operation keeps the agreement**.
* `persistence_refines_live` — after every finite sequence of calls the snapshot is
  valid, its revision counts the accepted mutations, and the branch restores it.
-/

namespace BeauPi.Tasks

open Machine Session List

variable (host : Host)

/-- **The refinement relation.**  What `rebuild` would restore from the branch is
what the runtime holds. -/
def Persisted (s : DynamicTaskRuntime) : Prop :=
  restoreSnapshots host s.branch = (s.snapshot, s.snapshotHistory)

variable {host} {s t : DynamicTaskRuntime}

/-! ## Reading entries back -/

theorem snapshotValue?_snapshotEntry (plan : DynamicTaskPlanV1) :
    snapshotValue? (snapshotEntry host plan) = some (plan.toJson host) := by
  simp [snapshotEntry, snapshotValue?, Json.get?, Json.field?]

variable {acc : Option DynamicTaskPlanV1 × OrderedMap Nat DynamicTaskPlanV1} {entry : SessionEntry}

/-- An entry without a snapshot restores nothing. -/
theorem restoreEntry_of_none (h : snapshotValue? entry = none) :
    restoreEntry host acc entry = acc := by
  unfold restoreEntry
  rw [h]

/-- The entry of a valid plan of the next revision restores that plan. -/
theorem restoreEntry_snapshotEntry {plan : DynamicTaskPlanV1} (hvalid : Valid host plan)
    (hrev : plan.revision = revisionOf acc.1 + 1) :
    restoreEntry host acc (snapshotEntry host plan) = (some plan, acc.2.set plan.revision plan) := by
  unfold restoreEntry
  rw [snapshotValue?_snapshotEntry]
  simp only
  rw [hvalid]
  simp only
  rw [if_pos hrev]

theorem restoreSnapshots_append (entries : List SessionEntry) (entry : SessionEntry) :
    restoreSnapshots host (entries ++ [entry]) =
      restoreEntry host (restoreSnapshots host entries) entry := by
  simp [restoreSnapshots, foldl_append]

theorem snapshotValue?_of_foreign (h : isDynamicTaskEntry entry = false) :
    snapshotValue? entry = none := by
  cases entry with
  | other type => rfl
  | custom customType data =>
    have hne : customType ≠ dynamicTaskSnapshotEntryType := by
      rintro rfl
      simp [isDynamicTaskEntry] at h
    cases data with
    | none => rfl
    | some value => simp [snapshotValue?, hne]

variable {entries : List SessionEntry}

/-- A branch without entries of this runtime restores the empty state. -/
theorem restoreSnapshots_of_foreign (h : ∀ entry ∈ entries, isDynamicTaskEntry entry = false) :
    restoreSnapshots host entries = (none, OrderedMap.empty) := by
  unfold restoreSnapshots
  generalize (none, OrderedMap.empty) = acc
  induction entries with
  | nil => rfl
  | cons entry entries ih =>
    have hentry := snapshotValue?_of_foreign (h entry (by simp))
    rw [foldl_cons, restoreEntry_of_none hentry]
    exact ih fun e he => h e (mem_cons_of_mem _ he)

/-! ## The refinement -/

/-- Whatever branch is restored, memory and branch agree. -/
theorem rebuild_persisted (entries : List SessionEntry) (hlive : s.disposed = false) :
    Persisted host (rebuild host entries s) := by
  simp [Persisted, rebuild, hlive]

theorem createRuntime_persisted (entries : List SessionEntry) :
    Persisted host (createRuntime host entries) :=
  rebuild_persisted entries rfl

theorem Accepts.persisted {next : DynamicTaskPlanV1} (h : Accepts host s next t)
    (hs : Persisted host s) : Persisted host t := by
  unfold Persisted at hs ⊢
  have hrev : next.revision = revisionOf (restoreSnapshots host s.branch).1 + 1 := by
    rw [hs]
    exact h.revision
  rw [h.branch, restoreSnapshots_append, restoreEntry_snapshotEntry h.valid hrev, hs, h.snapshot,
    h.history]

theorem Untouched.persisted (h : Untouched s t) (hs : Persisted host s) : Persisted host t := by
  unfold Untouched at h
  rw [h]
  exact hs

/-- **Every operation keeps the agreement** between memory and branch. -/
theorem perform_persisted (now : ℚ) (call : Call) (hs : Persisted host s) :
    Persisted host (perform host now call s).2 := by
  rcases perform_spec host s now call with ⟨-, h⟩ | ⟨-, next, h⟩
  · exact h.persisted hs
  · exact h.persisted hs

/-! ## Runs -/

/-- Execute calls one after the other: their answers and the final state. -/
def performAll (host : Host) : List (ℚ × Call) → DynamicTaskRuntime →
    List Answer × DynamicTaskRuntime
  | [], s => ([], s)
  | (now, call) :: calls, s =>
    let (answer, t) := perform host now call s
    let (answers, u) := performAll host calls t
    (answer :: answers, u)

/-- The number of mutations that were accepted. -/
def acceptedCount (answers : List Answer) : Nat := answers.countP accepted

/-- What holds between calls, when `n` mutations have been accepted since the runtime
started on the branch `entries`. -/
structure LiveState (host : Host) (entries : List SessionEntry) (n : Nat)
    (s : DynamicTaskRuntime) : Prop where
  live : s.disposed = false
  persisted : Persisted host s
  valid : ∀ plan, s.snapshot = some plan → Valid host plan
  revision : revisionOf s.snapshot = n
  appended : entries <+: s.branch

/-- One call keeps the live state, and counts if it is accepted. -/
theorem perform_liveState {n : Nat} (now : ℚ) (call : Call) (hs : LiveState host entries n s) :
    LiveState host entries (n + (if accepted (perform host now call s).1 then 1 else 0))
      (perform host now call s).2 := by
  have hpersisted := perform_persisted now call hs.persisted
  rcases perform_spec host s now call with ⟨ha, h⟩ | ⟨ha, next, h⟩
  · rw [ha]
    unfold Untouched at h
    rw [h] at hpersisted ⊢
    exact ⟨hs.live, hpersisted, hs.valid, hs.revision, hs.appended⟩
  · rw [ha]
    refine ⟨h.disposed, hpersisted, ?_, ?_, ?_⟩
    · intro plan hplan
      rw [h.snapshot] at hplan
      cases hplan
      exact h.valid
    · rw [h.snapshot]
      show next.revision = n + 1
      rw [h.revision, hs.revision]
    · rw [h.branch]
      exact hs.appended.trans (prefix_append _ _)

/-- A run keeps the live state and counts its accepted mutations. -/
theorem performAll_liveState :
    ∀ (calls : List (ℚ × Call)) (n : Nat) (s : DynamicTaskRuntime), LiveState host entries n s →
      LiveState host entries (n + acceptedCount (performAll host calls s).1)
        (performAll host calls s).2 := by
  intro calls
  induction calls with
  | nil => intro n s hs; exact hs
  | cons head calls ih =>
    intro n s hs
    obtain ⟨now, call⟩ := head
    have hstep := perform_liveState now call hs
    have hrest := ih _ _ hstep
    have hcount : n + acceptedCount (performAll host ((now, call) :: calls) s).1 =
        n + (if accepted (perform host now call s).1 then 1 else 0) +
          acceptedCount (performAll host calls (perform host now call s).2).1 := by
      simp only [performAll, acceptedCount, countP_cons]
      omega
    rw [hcount]
    exact hrest

/-- The state a runtime starts in on a branch that holds none of its entries. -/
theorem createRuntime_liveState (h : ∀ entry ∈ entries, isDynamicTaskEntry entry = false) :
    LiveState host entries 0 (createRuntime host entries) := by
  have hsnap : (createRuntime host entries).snapshot = none := by
    simp [createRuntime, rebuild, restoreSnapshots_of_foreign h]
  refine ⟨rfl, createRuntime_persisted entries, ?_, ?_, prefix_refl entries⟩
  · intro plan hplan
    rw [hsnap] at hplan
    cases hplan
  · rw [hsnap]
    rfl

/-- **Persistence refines the live state.**  From a branch without entries of this
runtime, after every finite sequence of calls: the snapshot passes its validation,
its revision is the number of accepted mutations, `rebuild` over the branch or over
the appended entries restores the same snapshot and the same history, and a further
call that is not accepted leaves snapshot, history and branch as they are. -/
theorem persistence_refines_live (host : Host) (entries : List SessionEntry)
    (hentries : ∀ entry ∈ entries, isDynamicTaskEntry entry = false)
    (calls : List (ℚ × Call)) :
    let answers := (performAll host calls (createRuntime host entries)).1
    let s := (performAll host calls (createRuntime host entries)).2
    (∀ plan, s.snapshot = some plan →
      validateDynamicTaskPlan host (plan.toJson host) = .ok plan ∧
        plan.revision = acceptedCount answers) ∧
    (s.snapshot = none → acceptedCount answers = 0) ∧
    (rebuild host s.branch s).snapshot = s.snapshot ∧
    (rebuild host s.branch s).snapshotHistory = s.snapshotHistory ∧
    (∃ appended, s.branch = entries ++ appended ∧
      (createRuntime host appended).snapshot = s.snapshot ∧
      (createRuntime host appended).snapshotHistory = s.snapshotHistory) ∧
    ∀ (now : ℚ) (call : Call), accepted (perform host now call s).1 = false →
      (perform host now call s).2.snapshot = s.snapshot ∧
      (perform host now call s).2.snapshotHistory = s.snapshotHistory ∧
      (perform host now call s).2.branch = s.branch := by
  have hlive := performAll_liveState calls 0 _ (@createRuntime_liveState host _ hentries)
  rw [Nat.zero_add] at hlive
  generalize performAll host calls (createRuntime host entries) = run at hlive ⊢
  obtain ⟨answers, s⟩ := run
  obtain ⟨hd, hrestore, hvalid, hrevision, appended, happended⟩ := hlive
  simp only at hd hrestore hvalid hrevision happended
  unfold Persisted at hrestore
  have happ : restoreSnapshots host appended = (s.snapshot, s.snapshotHistory) := by
    rw [← hrestore, ← happended, restoreSnapshots, restoreSnapshots, foldl_append]
    have hforeign := @restoreSnapshots_of_foreign host _ hentries
    rw [restoreSnapshots] at hforeign
    rw [hforeign]
  refine ⟨?_, ?_, ?_, ?_, ⟨appended, happended.symm, ?_, ?_⟩, ?_⟩
  · intro plan hplan
    refine ⟨hvalid plan hplan, ?_⟩
    rw [← hrevision, hplan]
    rfl
  · intro hnone
    rw [← hrevision, hnone]
    rfl
  · simp [rebuild, hd, hrestore]
  · simp [rebuild, hd, hrestore]
  · simp [createRuntime, rebuild, happ]
  · simp [createRuntime, rebuild, happ]
  · intro now call hrefused
    rcases perform_spec host s now call with ⟨-, h⟩ | ⟨ha, -⟩
    · unfold Untouched at h
      rw [h]
      exact ⟨rfl, rfl, rfl⟩
    · rw [hrefused] at ha
      cases ha

/-! ## A run -/

/-- A host whose texts are plain ASCII and whose digests nobody looks at. -/
def plainHost : Host where
  textLength := String.length
  schemaErrors _ _ := []
  sha256 _ := ""
  normalize text := String.ofList (text.toList.map Char.toLower)
  isLetterOrNumber c := Js.isLetter c || Js.isDigit c

/-- An update with one task. -/
def plainUpdate (expectedRevision : Nat) (reason status : String) : Json :=
  .obj [("version", .num 1), ("expectedRevision", .nat expectedRevision),
    ("reason", .str reason), ("goal", .str "Ship the parser"),
    ("tasks", .arr [.obj [("id", .str "parser"), ("title", .str "Run the parser tests"),
      ("status", .str status), ("matchHints", .arr [.str "npm test"])]])]

/-- A verification run that starts. -/
def plainStart (toolCallId : String) : DynamicTaskToolStartFact :=
  { toolCallId, toolName := "bash", args := .obj [("command", .str "npm test")],
    workspaceMutation := false, verification := true, createdAt := none }

/-- A verification run that ends. -/
def plainFinish (toolCallId : String) (status : ToolStatus) : DynamicTaskToolFinishFact :=
  { toolCallId, toolName := "bash", status, filesModified := none, verification := true,
    diagnostic := none, createdAt := none }

/-- A plan, a passing verification, a stale update and a malformed patch. -/
def plainCalls : List (ℚ × Call) :=
  [(10, .updatePlan "plan-1" (plainUpdate 0 "initial_plan" "pending")),
    (20, .noteToolStarted (plainStart "call-1")),
    (30, .noteToolFinished (plainFinish "call-1" .success)),
    (40, .updatePlan "plan-2" (plainUpdate 7 "plan_changed" "pending")),
    (50, .applyReviewerPatch .null)]

/-- Three of the five calls are accepted, and the branch restores revision 3. -/
theorem persistence_refines_live_plainCalls :
    acceptedCount (performAll plainHost plainCalls (createRuntime plainHost [])).1 = 3 ∧
    (createRuntime plainHost
      (performAll plainHost plainCalls (createRuntime plainHost [])).2.branch).snapshot =
      (performAll plainHost plainCalls (createRuntime plainHost [])).2.snapshot := by
  have hcount : acceptedCount (performAll plainHost plainCalls (createRuntime plainHost [])).1 = 3 := by
    decide +kernel
  have h := persistence_refines_live plainHost [] (by simp) plainCalls
  generalize performAll plainHost plainCalls (createRuntime plainHost []) = run at hcount h ⊢
  obtain ⟨-, -, -, -, ⟨appended, hbranch, hsnapshot, -⟩, -⟩ := h
  refine ⟨hcount, ?_⟩
  rw [hbranch]
  exact hsnapshot

end BeauPi.Tasks
