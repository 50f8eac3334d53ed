import BeauPi.Sqlite.Storage

/-!
# Overlapping appends of the SQLite storage

All calls of `appendEntry` on one storage that are under way.  A step runs the code of one call up
to its next `await`.

* `System.step` — a new call, or a step of one that is under way.
* `AppendsAll` — appends that are made one after the other.
* `calm` — between the failure of an append and its rejection nothing is written that it puts back.
* `undisturbed_after` — **in calm runs the resolved appends are visible, and only they**.
-/

namespace BeauPi.Sqlite

open List
open Option (some.inj)
open Statement (answered)

open Harness (TreeEntry)

variable {s s' base : SqliteStorage} {entry : TreeEntry} {statement : Statement} {answer : Answer}

/-! ## Calls -/

/-- Where a call of `appendEntry` stands; all keep the fields that its `catch` restores. -/
inductive Call
  /-- A statement of the transaction is awaited. -/
  | running (entry : TreeEntry) (previous : Memory) (statement : Statement)
  /-- A statement has failed, and the transaction is still open. -/
  | rollingBack (previous : Memory)
  /-- The `catch` of `appendEntry` is reached next. -/
  | rejecting (previous : Memory)

/-- A storage with the calls under way; `backup` holds the tables as they were at `BEGIN` while a
transaction is open. -/
structure System where
  storage : SqliteStorage
  backup : Option Database
  calls : List Call

/-- A call, or a step of one. -/
inductive Action
  /-- `appendEntry`; `begins` says whether the database can begin a transaction if none is open. -/
  | append (entry : TreeEntry) (begins : Bool)
  | step (index : Nat) (answer : Answer)

/-- One step of the system. -/
def System.step (s : System) : Action → Option System
  | .append entry begins =>
    match validateSessionTreeEntry entry with
    | .error _ => some s
    | .ok () =>
      let previous := s.storage.memory
      let storage := s.storage.applyEntry entry
      if begins = true ∧ s.backup.isNone = true then
        some {
          storage := storage
          backup := some storage.db
          calls := s.calls ++ [.running entry previous .checking] }
      else some { s with storage := storage, calls := s.calls ++ [.rejecting previous] }
  | .step index answer =>
    match s.calls[index]? with
    | none => none
    | some (.running entry previous statement) =>
      match statement.step s.storage entry answer with
      | (storage, .next statement) => some { s with
          storage := storage
          calls := s.calls.set index (.running entry previous statement) }
      | (storage, .committed) =>
        some { storage := storage, backup := none, calls := s.calls.eraseIdx index }
      | (storage, .threw _) => some { s with
          storage := storage
          calls := s.calls.set index (.rollingBack previous) }
    | some (.rollingBack previous) =>
      some {
        storage := { s.storage with db := s.backup.getD s.storage.db }
        backup := none
        calls := s.calls.set index (.rejecting previous) }
    | some (.rejecting previous) =>
      some { s with
        storage := { s.storage with memory := previous }
        calls := s.calls.eraseIdx index }

/-- The state after a sequence of actions. -/
def System.after (s : System) (actions : List Action) : Option System :=
  actions.foldlM System.step s

/-- A storage without a call. -/
def System.quiet (storage : SqliteStorage) : System := ⟨storage, none, []⟩

/-- The entry of the append that an action resolves. -/
def System.resolves (s : System) : Action → List TreeEntry
  | .append _ _ => []
  | .step index answer =>
    match s.calls[index]? with
    | some (.running entry _ statement) =>
      if (statement.step s.storage entry answer).2 = .committed then [entry] else []
    | _ => []

/-- The entries of the appends that a sequence of actions resolves, in order. -/
def System.resolved (s : System) : List Action → List TreeEntry
  | [] => []
  | action :: actions =>
    match s.step action with
    | none => []
    | some s' => s.resolves action ++ s'.resolved actions

/-! ## Appends one after the other -/

/-- The statements of an append, from one to another. -/
inductive Reaches (entry : TreeEntry) : SqliteStorage → Statement → SqliteStorage → Statement → Prop
  | refl {s : SqliteStorage} {statement : Statement} : Reaches entry s statement s statement
  | next {s₁ s₂ s₃ : SqliteStorage} {st₁ st₂ st₃ : Statement} {answer : Answer} :
      Reaches entry s₁ st₁ s₂ st₂ → st₂.step s₂ entry answer = (s₃, .next st₃) →
      Reaches entry s₁ st₁ s₃ st₃

/-- The append of an entry up to a statement. -/
def Underway (entry : TreeEntry) (before s : SqliteStorage) (statement : Statement) : Prop :=
  validateSessionTreeEntry entry = .ok () ∧
    Reaches entry (before.applyEntry entry) .checking s statement

/-- A whole append. -/
def Appends (entry : TreeEntry) (before s : SqliteStorage) : Prop :=
  ∃ last statement answer, Underway entry before last statement ∧
    statement.step last entry answer = (s, .committed)

/-- Appends that are made one after the other. -/
inductive AppendsAll (start : SqliteStorage) : List TreeEntry → SqliteStorage → Prop
  | nil : AppendsAll start [] start
  | snoc {entries : List TreeEntry} {entry : TreeEntry} {s s' : SqliteStorage} :
      AppendsAll start entries s → Appends entry s s' → AppendsAll start (entries ++ [entry]) s'

/-! ## The condition -/

/-- Has a statement of the call failed? -/
def Call.failing : Call → Bool
  | .running .. => false
  | _ => true

/-- The statement and the code up to the next one do not write what a failed append puts back: the
fields of the storage, or a summary that they hold. -/
def Statement.spares (statement : Statement) (previous now : Summary) : Bool :=
  match statement with
  | .summarizing .. => previous = now
  | .activating _ | .walking .. | .loading _ | .branching .. => false
  | _ => true

/-- No append is called while another one has failed and is not rejected yet; meanwhile the append
whose transaction is open writes nothing that is put back, and failed appends are rejected in the
reverse order of their calls. -/
def System.calm (s : System) : Action → Bool
  | .append .. => !s.calls.any Call.failing
  | .step index _ =>
    match s.calls[index]? with
    | some (.running _ _ statement) => s.calls.all fun call =>
        match call with
        | .running .. => true
        | .rollingBack previous | .rejecting previous =>
          statement.spares previous.materializedState.summary
            s.storage.memory.materializedState.summary
    | some (.rejecting _) => index + 1 = s.calls.length
    | _ => true

/-- All actions of a sequence are calm. -/
def System.alwaysCalm (s : System) : List Action → Bool
  | [] => true
  | action :: actions =>
    match s.step action with
    | none => true
    | some s' => s.calm action && s'.alwaysCalm actions

/-! ## What a step leaves alone -/

theorem getEntry_frame (s : SqliteStorage) (id : String) :
    (s.getEntry id).2.sessionId = s.sessionId ∧ (s.getEntry id).2.db = s.db ∧
      (s.getEntry id).2.memory.currentLeafId = s.memory.currentLeafId := by
  unfold SqliteStorage.getEntry
  split
  · exact ⟨rfl, rfl, rfl⟩
  · split <;> exact ⟨rfl, rfl, rfl⟩

/-- Two storages of one session whose leaf is the same in memory and in the tables. -/
def Alike (s s' : SqliteStorage) : Prop :=
  s'.sessionId = s.sessionId ∧
    (s.db.activeLeafId = s.memory.currentLeafId → s'.db.activeLeafId = s'.memory.currentLeafId)

theorem Alike.refl (s : SqliteStorage) : Alike s s := ⟨rfl, id⟩

theorem alike_branch (s : SqliteStorage) (branchId : String) (rows : List EntryRow) :
    Alike s (s.branch branchId rows).1 := by
  unfold SqliteStorage.branch
  split
  · exact ⟨rfl, id⟩
  · exact .refl s

theorem alike_insertBranchRow {row : BranchRow} (h : s.insertBranchRow row = some s') :
    Alike s s' := by
  unfold SqliteStorage.insertBranchRow at h
  split at h
  · cases h
  · cases h
    exact ⟨rfl, id⟩

theorem Alike.trans {s₁ s₂ s₃ : SqliteStorage} (h : Alike s₁ s₂) (h' : Alike s₂ s₃) :
    Alike s₁ s₃ := ⟨h'.1.trans h.1, fun hleaf => h'.2 (h.2 hleaf)⟩

/-- An answered statement keeps the leaf in memory and in the tables the same. -/
theorem alike_answered (s : SqliteStorage) (entry : TreeEntry) (newBranchId : String)
    (statement : Statement) : Alike s (statement.answered s entry newBranchId).1 := by
  cases statement with
  | checking => exact .refl s
  | sequencing hadChild => exact .refl s
  | inserting | labelling =>
    unfold answered
    dsimp only
    split
    · exact .refl s
    · exact ⟨rfl, id⟩
  | advancing hadChild seq => exact ⟨rfl, id⟩
  | summarizing hadChild seq => exact ⟨rfl, id⟩
  | activating hadChild =>
    unfold answered
    dsimp only
    split
    · exact ⟨rfl, fun _ => rfl⟩
    · exact ⟨rfl, fun _ => rfl⟩
  | walking path stopAtEntryId id =>
    have hframe := getEntry_frame s id
    unfold answered
    dsimp only
    split
    · next s' hget =>
      rw [hget] at hframe
      obtain ⟨hsession, hdb, hleaf⟩ := hframe
      exact ⟨hsession, fun h => by rw [hdb, hleaf]; exact h⟩
    · next current s' hget =>
      rw [hget] at hframe
      obtain ⟨hsession, hdb, hleaf⟩ := hframe
      have halike : Alike s s' := ⟨hsession, fun h => by rw [hdb, hleaf]; exact h⟩
      split_ifs <;> exact halike
  | loading path =>
    unfold answered
    dsimp only
    split
    · exact alike_branch s newBranchId _
    · exact .refl s
  | branching branchId rows =>
    unfold answered
    dsimp only
    split
    · exact alike_branch s branchId []
    · split
      · exact .refl s
      · next s' hinsert => exact (alike_insertBranchRow hinsert).trans (alike_branch s' branchId _)
  | locating =>
    unfold answered
    dsimp only
    split <;> exact .refl s
  | extending branchId seq =>
    unfold answered
    dsimp only
    split
    · exact .refl s
    · next s' hinsert => exact alike_insertBranchRow hinsert
  | committing => exact .refl s

/-- A statement that does not fail was answered. -/
theorem step_answered {outcome : Outcome} (hs : statement.step s entry answer = (s', outcome))
    (hnot : ∀ e, outcome ≠ .threw e) :
    ∃ newBranchId, statement.answered s entry newBranchId = (s', outcome) := by
  cases answer with
  | ok newBranchId => exact ⟨newBranchId, hs⟩
  | fails =>
    unfold Statement.step at hs
    dsimp only at hs
    split at hs
    · cases hs
      exact absurd rfl (hnot _)
    · cases hs
      exact absurd rfl (hnot _)

/-- No statement changes the session. -/
theorem step_sessionId (s : SqliteStorage) (entry : TreeEntry) (answer : Answer)
    (statement : Statement) : (statement.step s entry answer).1.sessionId = s.sessionId := by
  cases answer with
  | ok newBranchId => exact (alike_answered s entry newBranchId statement).1
  | fails =>
    unfold Statement.step
    dsimp only
    split <;> rfl

theorem Reaches.alike {s₁ s₂ : SqliteStorage} {st₁ st₂ : Statement}
    (h : Reaches entry s₁ st₁ s₂ st₂) : Alike s₁ s₂ := by
  induction h with
  | refl => exact .refl _
  | @next s₂ _ _ st₂ _ _ _ hstep ih =>
    obtain ⟨newBranchId, hanswered⟩ := step_answered hstep (by simp)
    have halike := alike_answered s₂ entry newBranchId st₂
    rw [hanswered] at halike
    exact ih.trans halike

variable {before : SqliteStorage}

theorem Underway.sessionId (h : Underway entry before s statement) :
    s.sessionId = before.sessionId := h.2.alike.1

theorem Appends.alike (h : Appends entry before s) : Alike before s := by
  obtain ⟨last, statement, answer, ⟨-, hreaches⟩, hstep⟩ := h
  obtain ⟨newBranchId, hanswered⟩ := step_answered hstep (by simp)
  have halike := alike_answered last entry newBranchId statement
  rw [hanswered] at halike
  have happly : Alike before (before.applyEntry entry) := ⟨rfl, id⟩
  exact (happly.trans hreaches.alike).trans halike

variable {start : SqliteStorage} {entries : List TreeEntry}

theorem AppendsAll.alike (h : AppendsAll start entries s) : Alike start s := by
  induction h with
  | nil => exact .refl _
  | snoc _ happends ih => exact ih.trans happends.alike

/-! ## Steps beside an append that was refused -/

/-- The storage with another materialized state. -/
def SqliteStorage.withState (s : SqliteStorage) (state : MaterializedState) : SqliteStorage :=
  { s with memory := { s.memory with materializedState := state } }

theorem insertBranchRow_withState (s : SqliteStorage) (state : MaterializedState) (row : BranchRow)
    :
    (s.withState state).insertBranchRow row =
      (s.insertBranchRow row).map (·.withState state) := by
  by_cases h : (s.db.branchEntries.any fun other =>
    decide (other.branchId = row.branchId ∧ other.entryId = row.entryId)) = true
  · have hright : s.insertBranchRow row = none := if_pos h
    have hleft : (s.withState state).insertBranchRow row = none := if_pos h
    rw [hleft, hright]
    rfl
  · have hright : s.insertBranchRow row = some { s with db :=
        { s.db with branchEntries := s.db.branchEntries ++ [row] } } := if_neg h
    have hleft : (s.withState state).insertBranchRow row =
        some { s.withState state with db :=
          { s.db with branchEntries := s.db.branchEntries ++ [row] } } := if_neg h
    rw [hleft, hright]
    rfl

theorem insertBranchRow_memory {row : BranchRow} (h : s.insertBranchRow row = some s') :
    s'.memory = s.memory := by
  unfold SqliteStorage.insertBranchRow at h
  split at h
  · cases h
  · cases h
    rfl

/-- A statement that spares the fields does the same whatever the materialized state is, and leaves
the fields as they are. -/
theorem step_spares {state : MaterializedState}
    (hspares : statement.spares s.memory.materializedState.summary state.summary = true) :
    statement.step (s.withState state) entry answer =
        ((statement.step s entry answer).1.withState state, (statement.step s entry answer).2) ∧
      (statement.step s entry answer).1.memory = s.memory := by
  cases answer with
  | fails =>
    unfold Statement.step
    cases statement with
    | activating hadChild => cases hspares
    | _ => exact ⟨rfl, rfl⟩
  | ok newBranchId =>
    unfold Statement.step
    dsimp only
    cases statement with
    | checking | sequencing | advancing | committing => exact ⟨rfl, rfl⟩
    | inserting hadChild seq =>
      by_cases h : (s.db.entries.any fun row =>
        decide (row.entry.id = entry.id ∨ row.entrySeq = seq)) = true
      · have hright : (Statement.inserting hadChild seq).answered s entry newBranchId =
            (s, .threw (failedAppend entry)) := if_pos h
        rw [hright]
        exact ⟨if_pos h, rfl⟩
      · have hright : (Statement.inserting hadChild seq).answered s entry newBranchId =
            ({ s with db := { s.db with entries := s.db.entries ++ [⟨entry, seq⟩] } },
              .next (.advancing hadChild seq)) := if_neg h
        rw [hright]
        exact ⟨if_neg h, rfl⟩
    | summarizing hadChild seq =>
      have hsummary : s.memory.materializedState.summary = state.summary :=
        of_decide_eq_true hspares
      unfold answered
      dsimp only [SqliteStorage.withState]
      rw [hsummary]
      exact ⟨rfl, rfl⟩
    | labelling hadChild row =>
      by_cases h : (s.db.labels.any fun other => decide (other.entrySeq = row.entrySeq)) = true
      · have hright : (Statement.labelling hadChild row).answered s entry newBranchId =
            (s, .threw (failedAppend entry)) := if_pos h
        rw [hright]
        exact ⟨if_pos h, rfl⟩
      · have hright : (Statement.labelling hadChild row).answered s entry newBranchId =
            ({ s with db := { s.db with labels := s.db.labels ++ [row] } },
              .next (.activating hadChild)) := if_neg h
        rw [hright]
        exact ⟨if_neg h, rfl⟩
    | activating | walking | loading | branching => cases hspares
    | locating =>
      unfold answered
      dsimp only [SqliteStorage.withState]
      split <;> exact ⟨rfl, rfl⟩
    | extending branchId seq =>
      unfold answered
      dsimp only
      rw [insertBranchRow_withState]
      cases hinsert : s.insertBranchRow ⟨branchId, entry.id, seq⟩ with
      | none => exact ⟨rfl, rfl⟩
      | some s' => exact ⟨rfl, insertBranchRow_memory hinsert⟩

/-! ## Calm runs -/

/-- What a calm run has come to: which appends are resolved, and what is under way. -/
inductive Shape (start : SqliteStorage) (entries : List TreeEntry) : System → Prop
  /-- No append is under way. -/
  | quiet {storage : SqliteStorage} : AppendsAll start entries storage →
      Shape start entries ⟨storage, none, []⟩
  /-- The transaction of an append is open. -/
  | busy {before storage : SqliteStorage} {entry : TreeEntry} {statement : Statement} :
      AppendsAll start entries before → Underway entry before storage statement →
      Shape start entries ⟨storage, some before.db, [.running entry before.memory statement]⟩
  /-- A statement has failed, and perhaps an append was refused before. -/
  | failed {before storage : SqliteStorage} {refused : Option Memory} :
      AppendsAll start entries before → storage.sessionId = before.sessionId →
      Shape start entries ⟨storage, some before.db,
        .rollingBack before.memory :: (refused.map Call.rejecting).toList⟩
  /-- The transaction is rolled back or could not begin, and perhaps an append was refused
  before. -/
  | dropped {before storage : SqliteStorage} {refused : Option Memory} :
      AppendsAll start entries before → storage.sessionId = before.sessionId →
      storage.db = before.db → Shape start entries ⟨storage, none,
        .rejecting before.memory :: (refused.map Call.rejecting).toList⟩
  /-- An append has found a transaction open. -/
  | refused {before storage : SqliteStorage} {entry : TreeEntry} {statement : Statement}
      {state : MaterializedState} :
      AppendsAll start entries before → Underway entry before storage statement →
      Shape start entries ⟨storage.withState state, some before.db,
        [.running entry before.memory statement, .rejecting storage.memory]⟩

variable {storage : SqliteStorage}

/-- A storage with its tables and fields put back. -/
theorem restored (hsession : storage.sessionId = before.sessionId) (hdb : storage.db = before.db) :
    { storage with memory := before.memory } = before := by
  cases before
  cases storage
  cases hsession
  cases hdb
  rfl

variable {s s' : System}

/-- A call of `appendEntry`. -/
theorem Shape.append (h : Shape start entries s) {begins : Bool}
    (hcalm : s.calm (.append entry begins) = true) (hs : s.step (.append entry begins) = some s') :
    Shape start entries s' := by
  unfold System.step at hs
  dsimp only at hs
  split at hs
  · obtain rfl := some.inj hs
    exact h
  · next hvalid =>
    cases h with
    | @quiet storage hall =>
      split at hs
      · obtain rfl := some.inj hs
        exact @Shape.busy _ _ storage _ _ _ hall ⟨hvalid, .refl⟩
      · obtain rfl := some.inj hs
        exact @Shape.dropped _ _ storage _ none hall rfl rfl
    | @busy before storage entry' statement hall hunder =>
      rw [if_neg (by simp)] at hs
      obtain rfl := some.inj hs
      exact .refused hall hunder
    | failed _ _ => cases hcalm
    | dropped _ _ _ => cases hcalm
    | refused _ _ => cases hcalm

/-- A step of the append whose transaction is open, without another one. -/
theorem Shape.stepBusy (hall : AppendsAll start entries before)
    (hunder : Underway entry before storage statement) (answer : Answer)
    (hsystem : s = ⟨storage, some before.db, [.running entry before.memory statement]⟩)
    (hs : s.step (.step 0 answer) = some s') :
    Shape start (entries ++ s.resolves (.step 0 answer)) s' := by
  subst hsystem
  have hsession := step_sessionId storage entry answer statement
  unfold System.resolves
  unfold System.step at hs
  dsimp only [getElem?_cons_zero] at hs ⊢
  cases hoc : statement.step storage entry answer with
  | mk storage' outcome =>
    rw [hoc] at hs hsession
    cases outcome with
    | next statement' =>
      obtain rfl := some.inj hs
      rw [if_neg (by simp), append_nil]
      exact .busy hall ⟨hunder.1, hunder.2.next hoc⟩
    | committed =>
      obtain rfl := some.inj hs
      rw [if_pos rfl]
      exact .quiet (hall.snoc ⟨storage, statement, answer, hunder, hoc⟩)
    | threw e =>
      obtain rfl := some.inj hs
      rw [if_neg (by simp), append_nil]
      exact @Shape.failed _ _ _ _ none hall (hsession.trans hunder.sessionId)

/-- A step of the append whose transaction is open, beside one that was refused. -/
theorem Shape.stepRefused {state : MaterializedState} (hall : AppendsAll start entries before)
    (hunder : Underway entry before storage statement) (answer : Answer)
    (hsystem : s = ⟨storage.withState state, some before.db, [.running entry before.memory
      statement, .rejecting storage.memory]⟩)
    (hspares : statement.spares storage.memory.materializedState.summary state.summary = true)
    (hs : s.step (.step 0 answer) = some s') :
    Shape start (entries ++ s.resolves (.step 0 answer)) s' := by
  subst hsystem
  obtain ⟨hsame, hmemory⟩ := @step_spares _ entry _ answer _ hspares
  have hsession := step_sessionId storage entry answer statement
  unfold System.resolves
  unfold System.step at hs
  dsimp only [getElem?_cons_zero] at hs ⊢
  rw [hsame] at hs ⊢
  cases hoc : statement.step storage entry answer with
  | mk storage' outcome =>
    rw [hoc] at hs hsession hmemory
    dsimp only at hs hsession hmemory ⊢
    rw [← hmemory] at hs
    cases outcome with
    | next statement' =>
      obtain rfl := some.inj hs
      rw [if_neg (by simp), append_nil]
      exact .refused hall ⟨hunder.1, hunder.2.next hoc⟩
    | committed =>
      obtain rfl := some.inj hs
      rw [if_pos rfl]
      exact @Shape.dropped _ _ storage' _ none (hall.snoc ⟨storage, statement, answer, hunder, hoc⟩)
        rfl rfl
    | threw e =>
      obtain rfl := some.inj hs
      rw [if_neg (by simp), append_nil]
      exact @Shape.failed _ _ _ _ (some storage'.memory) hall (hsession.trans hunder.sessionId)

/-- **A calm step keeps the effects of the resolved appends, and only theirs.** -/
theorem Shape.step (h : Shape start entries s) {action : Action} (hcalm : s.calm action = true)
    (hs : s.step action = some s') : Shape start (entries ++ s.resolves action) s' := by
  cases action with
  | append entry begins =>
    rw [show s.resolves (.append entry begins) = [] from rfl, append_nil]
    exact h.append hcalm hs
  | step index answer =>
    cases h with
    | quiet hall => cases hs
    | busy hall hunder =>
      cases index with
      | succ index => cases hs
      | zero => exact stepBusy hall hunder answer rfl hs
    | @failed before storage refused hall hsession =>
      match index, refused with
      | 0, refused =>
        obtain rfl := some.inj hs
        rw [show System.resolves _ _ = [] from rfl, append_nil]
        exact .dropped hall hsession rfl
      | 1, none => cases hs
      | 1, some memory =>
        obtain rfl := some.inj hs
        rw [show System.resolves _ _ = [] from rfl, append_nil]
        exact @Shape.failed _ _ _ _ none hall hsession
      | index + 2, none => cases hs
      | index + 2, some memory => cases hs
    | @dropped before storage refused hall hsession hdb =>
      match index, refused with
      | 0, none =>
        obtain rfl := some.inj hs
        rw [show System.resolves _ _ = [] from rfl, append_nil]
        refine .quiet ?_
        dsimp only
        rw [restored hsession hdb]
        exact hall
      | 0, some memory => cases hcalm
      | 1, none => cases hs
      | 1, some memory =>
        obtain rfl := some.inj hs
        rw [show System.resolves _ _ = [] from rfl, append_nil]
        exact @Shape.dropped _ _ _ _ none hall hsession hdb
      | index + 2, none => cases hs
      | index + 2, some memory => cases hs
    | @refused before storage entry statement state hall hunder =>
      match index with
      | 0 =>
        have hspares : (statement.spares storage.memory.materializedState.summary state.summary &&
          true) = true := hcalm
        exact stepRefused hall hunder answer rfl (Bool.and_eq_true_iff.1 hspares).1 hs
      | 1 =>
        obtain rfl := some.inj hs
        rw [show System.resolves _ _ = [] from rfl, append_nil]
        exact .busy hall hunder
      | index + 2 => cases hs

theorem Shape.after (h : Shape start entries s) {actions : List Action}
    (hcalm : s.alwaysCalm actions = true) (hs : s.after actions = some s') :
    Shape start (entries ++ s.resolved actions) s' := by
  induction actions generalizing s entries with
  | nil =>
    obtain rfl := some.inj hs
    rw [show s.resolved [] = [] from rfl, append_nil]
    exact h
  | cons action actions ih =>
    obtain ⟨s'', hstep, hrest⟩ := Option.bind_eq_some_iff.1 hs
    unfold System.alwaysCalm at hcalm
    unfold System.resolved
    rw [hstep] at hcalm ⊢
    obtain ⟨hfirst, hlater⟩ := Bool.and_eq_true_iff.1 hcalm
    dsimp only
    rw [← append_assoc]
    exact ih (h.step hfirst hstep) hlater hrest

/-- **In calm runs the storage is at any time, unless a failed append is still to be rejected, as
after the resolved appends alone, made one after the other, and the statements that an append under
way has made; a rejected append leaves nothing.** -/
theorem undisturbed_after (start : SqliteStorage) {actions : List Action} {s' : System}
    (hcalm : (System.quiet start).alwaysCalm actions = true)
    (hs : (System.quiet start).after actions = some s')
    (hnone : s'.calls.any Call.failing = false) :
    ∃ before, AppendsAll start ((System.quiet start).resolved actions) before ∧
      ((s'.calls = [] ∧ s'.storage = before) ∨
        ∃ entry previous statement, s'.calls = [.running entry previous statement] ∧
          Underway entry before s'.storage statement) := by
  have h := Shape.after (.quiet .nil) hcalm hs
  rw [nil_append] at h
  cases h with
  | quiet hall => exact ⟨_, hall, Or.inl ⟨rfl, rfl⟩⟩
  | busy hall hunder => exact ⟨_, hall, Or.inr ⟨_, _, _, rfl, hunder⟩⟩
  | failed _ _ => cases hnone
  | dropped _ _ _ => cases hnone
  | refused _ _ => cases hnone

/-- A message entry without a parent. -/
def rootEntry (id : String) : TreeEntry := ⟨id, none, "t", .message (.user ⟨some (.str id), 0⟩)⟩

/-- Steps of the first call. -/
def firstSteps (n : Nat) : List Action := List.replicate n (.step 0 (.ok "b"))

/-- An append that fails at the update of the leaf, and one that succeeds. -/
def failsAndSucceeds : List Action :=
  .append (rootEntry "x") true :: firstSteps 5 ++ [.step 0 .fails, .step 0 .fails, .step 0 .fails]
    ++
    .append (rootEntry "y") true :: .append (rootEntry "z") true :: .step 0 (.ok "b") ::
      .step 1 .fails :: firstSteps 9

/-- Of three appends, one fails, one is refused, and one is visible. -/
theorem undisturbed_after_failsAndSucceeds :
    ∃ s', (System.quiet (.create "s")).after failsAndSucceeds = some s' ∧
      ∃ before, AppendsAll (.create "s") ((System.quiet (.create "s")).resolved failsAndSucceeds)
          before ∧
        ((s'.calls = [] ∧ s'.storage = before) ∨
          ∃ entry previous statement, s'.calls = [.running entry previous statement] ∧
            Underway entry before s'.storage statement) := by
  have hafter : ((System.quiet (.create "s")).after failsAndSucceeds).map
      (fun s' => s'.calls.any Call.failing) = some false := by decide
  obtain ⟨s', hs, hnone⟩ := Option.map_eq_some_iff.1 hafter
  exact ⟨s', hs, undisturbed_after (.create "s") (by decide) hs hnone⟩

/-- An append is refused while another one is about to set the leaf, and restores the old leaf
afterwards. -/
theorem leaf_forgotten : ¬∀ (start : SqliteStorage) (actions : List Action) (s' : System),
    start = .create start.sessionId → (System.quiet start).after actions = some s' →
    s'.calls = [] → AppendsAll start ((System.quiet start).resolved actions) s'.storage := by
  intro h
  have hrun : ∃ s', (System.quiet (.create "s")).after (.append (rootEntry "x") true ::
      firstSteps 5 ++ .append (rootEntry "y") true :: .step 0 (.ok "b") :: .step 1 .fails ::
      firstSteps 4) = some s' ∧ s'.calls = [] ∧ s'.storage.memory.currentLeafId = none ∧
      s'.storage.db.activeLeafId = some "x" := ⟨_, rfl, rfl, rfl, rfl⟩
  obtain ⟨s', hs, hcalls, hleaf, hactive⟩ := hrun
  have halike := (h (.create "s") _ s' rfl hs hcalls).alike.2 rfl
  rw [hleaf, hactive] at halike
  cases halike

end BeauPi.Sqlite
