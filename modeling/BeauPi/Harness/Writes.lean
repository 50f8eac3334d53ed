import BeauPi.Harness.Agent

/-!
# Session writes of the agent harness

* `LeafPath` — the entries from a root to the leaf.
* `AppendSteps`, `Call.step_append` — what a step of a call does to the session and its own append.
* `Serial` — no two appends stand between the reading and the moving of the leaf.
* `after_linear` — **while appends are serial, every entry that is appended is on the path of the
  leaf, exactly once**.
-/

namespace BeauPi.Harness

open Llm Sessions Machine List
open Option (bind_eq_some_iff map_eq_some_iff mem_bind_iff mem_toList some.inj)
open AgentLoop (Loop AgentEvent)

variable {h h' : AgentHarness} {s s' : System} {moment : Moment} {session session' : Storage}

/-! ## Paths -/

/-- The entries from a root to the entry of an id, by the parent links. -/
inductive PathTo (byId : EntryMap) : String → List TreeEntry → Prop
  | root {entry : TreeEntry} : byId.get? entry.id = some entry →
      entry.parentId.getD "" = "" → PathTo byId entry.id [entry]
  | child {entry : TreeEntry} {parentId : String} {path : List TreeEntry} :
      byId.get? entry.id = some entry → entry.parentId = some parentId → parentId ≠ "" →
      PathTo byId parentId path → PathTo byId entry.id (path ++ [entry])

/-- The entries from a root to the leaf of a session. -/
def LeafPath (session : Storage) (path : List TreeEntry) : Prop :=
  match session.leafId with
  | none => path = []
  | some id => PathTo session.byId id path

variable {byId : EntryMap} {id : String} {path : List TreeEntry}

theorem PathTo.mono {byId' : EntryMap} (h : PathTo byId id path)
    (hle : ∀ id entry, byId.get? id = some entry → byId'.get? id = some entry) :
    PathTo byId' id path := by
  induction h with
  | root hget hroot => exact .root (hle _ _ hget) hroot
  | child hget hparent hne _ ih => exact .child (hle _ _ hget) hparent hne ih

/-- The entries of a path are in the index. -/
theorem PathTo.has (h : PathTo byId id path) : ∀ entry ∈ path, byId.has entry.id = true := by
  induction h with
  | root hget _ =>
    intro entry hmem
    obtain rfl := List.mem_singleton.1 hmem
    rw [OrderedMap.has, hget]
    rfl
  | child hget _ _ _ ih =>
    intro entry hmem
    rcases List.mem_append.1 hmem with hmem | hmem
    · exact ih entry hmem
    · obtain rfl := List.mem_singleton.1 hmem
      rw [OrderedMap.has, hget]
      rfl

/-- Does the entry move the leaf elsewhere? -/
def TreeBody.isLeaf : TreeBody → Bool
  | .leaf _ => true
  | _ => false

variable {entry : TreeEntry}

theorem leafId_appendEntry (hbody : entry.body.isLeaf = false) :
    (session.appendEntry entry).leafId = some entry.id := by
  unfold Storage.appendEntry leafIdAfterEntry
  dsimp only
  split
  · next hleaf =>
    rw [hleaf] at hbody
    cases hbody
  · rfl

theorem get?_appendEntry (hnew : session.byId.has entry.id = false) {e : TreeEntry}
    (hget : session.byId.get? id = some e) :
    (session.appendEntry entry).byId.get? id = some e := by
  have hne : id ≠ entry.id := by
    rintro rfl
    rw [OrderedMap.has, hget] at hnew
    cases hnew
  exact (OrderedMap.get?_set_ne _ _ hne).trans hget

/-- The entries of the path of the leaf are in the index. -/
theorem LeafPath.has (h : LeafPath session path) :
    ∀ entry ∈ path, session.byId.has entry.id = true := by
  unfold LeafPath at h
  split at h
  · rw [h]
    exact fun entry hmem => absurd hmem (not_mem_nil)
  · exact PathTo.has h

/-- A new entry below the leaf extends the path of the leaf. -/
theorem LeafPath.append (h : LeafPath session path)
    (hleaf : ∀ id, session.leafId = some id → id ≠ "") (hbody : entry.body.isLeaf = false)
    (hnew : session.byId.has entry.id = false) (hparent : entry.parentId = session.leafId) :
    LeafPath (session.appendEntry entry) (path ++ [entry]) := by
  have hget : (session.appendEntry entry).byId.get? entry.id = some entry :=
    OrderedMap.get?_set_self _ _ _
  unfold LeafPath
  rw [leafId_appendEntry hbody]
  unfold LeafPath at h
  cases hid : session.leafId with
  | none =>
    rw [hid] at h hparent
    obtain rfl : path = [] := h
    exact .root hget (by rw [hparent]; rfl)
  | some id =>
    rw [hid] at h hparent
    exact .child hget hparent (hleaf id hid) (h.mono fun _ _ => get?_appendEntry hnew)

/-! ## What a step does to the session -/

/-- The append that a flush is at. -/
def Flush.append? : Flush → Option Appending
  | .appending _ rest => some rest
  | .shifting => none

/-- The append that the handling of an event is at. -/
def Handling.append? : Handling → Option Appending
  | .appending _ rest => some rest
  | .turnFlushing _ flush => flush.append?
  | .endFlushing flush => flush.append?
  | _ => none

/-- The append that a run is at. -/
def RunStage.append? : RunStage → Option Appending
  | .looping _ _ handling => handling.append?
  | .preparing _ _ flush => flush.append?
  | .reporting _ handling => handling.append?
  | .closing _ (some flush) => flush.append?
  | _ => none

/-- The append that a call is at. -/
def Call.append? : Call → Option Appending
  | .run _ stage => stage.append?
  | .compact (.appending rest) => some rest
  | .write _ rest => some rest
  | _ => none

/-- The append of a call is none, or it begins, with an entry that is no leaf. -/
def Begins (next : Option Appending) : Prop :=
  ∀ rest ∈ next, ∃ body : TreeBody, body.isLeaf = false ∧ rest = .naming body

/-- What a step of a call does to the session and to its own append. -/
inductive AppendSteps (session : Storage) : Option Appending → Storage → Option Appending → Prop
  | stays {append : Option Appending} : AppendSteps session append session append
  | ends {append next : Option Appending} : Begins next → AppendSteps session append session next
  | named {body : TreeBody} {id : String} : id ≠ "" → session.byId.has id = false →
      AppendSteps session (some (.naming body)) session (some (.reading id body))
  | read {id timestamp : String} {body : TreeBody} :
      AppendSteps session (some (.reading id body)) session
        (some (.writing ⟨id, session.leafId, timestamp, body⟩))
  | written {entry : TreeEntry} {next : Option Appending} : Begins next →
      AppendSteps session (some (.writing entry)) (session.appendEntry entry) next

theorem begins_none : Begins none := fun rest h => by cases h

theorem begins_naming {body : TreeBody} (hbody : body.isLeaf = false) :
    Begins (some (.naming body)) := by
  intro rest h
  cases h
  exact ⟨body, hbody, rfl⟩

theorem getLeafId_eq_ok {parentId : Option String} (h : session.getLeafId = .ok parentId) :
    parentId = session.leafId := by
  unfold Storage.getLeafId at h
  split at h
  · next hleaf => rw [hleaf, Except.ok.inj h]
  · next id hleaf =>
    split at h
    · rw [hleaf, Except.ok.inj h]
    · cases h

/-- The append of what is left to do. -/
def Progress.append? {α : Type} (append? : α → Option Appending) : Progress α → Option Appending
  | .pending rest => append? rest
  | .done => none
  | .threw => none

theorem Appending.step_append {rest : Appending} {input : AppendInput}
    {progress : Progress Appending} (hs : rest.step session input = some (session', progress)) :
    AppendSteps session (some rest) session' (progress.append? some) := by
  unfold Appending.step at hs
  split at hs
  · split at hs
    · cases hs
    · next hid =>
      cases hs
      rw [not_or, Bool.not_eq_true] at hid
      exact .named hid.1 hid.2
  · split at hs
    · next parentId hleaf =>
      cases hs
      obtain rfl := getLeafId_eq_ok hleaf
      exact .read
    · cases hs
      exact .ends begins_none
  · cases hs
    exact .written begins_none
  · cases hs
    exact .ends begins_none
  · cases hs

theorem begins_next (pending : List PendingSessionWrite) :
    Begins ((Flush.next pending).bind Flush.append?) := by
  cases pending with
  | nil => exact begins_none
  | cons write rest =>
    refine begins_naming ?_
    cases write <;> rfl

theorem Flush.step_append {flush : Flush} {input : FlushInput} {progress : Progress Flush}
    (hs : flush.step h input = some (h', progress)) :
    AppendSteps h.session flush.append? h'.session (progress.append? Flush.append?) := by
  unfold Flush.step at hs
  split at hs
  · obtain ⟨⟨session, progress'⟩, hstep, heq⟩ := map_eq_some_iff.1 hs
    have happend := Appending.step_append hstep
    cases progress' <;> cases heq <;> exact happend
  · cases hs
    dsimp only
    have hbegins := begins_next h.pendingSessionWrites.tail
    split
    · next flush hnext =>
      rw [hnext] at hbegins
      exact .ends hbegins
    · exact .ends begins_none
  · cases hs

/-- The session is as before, and an append may begin. -/
def Fresh (h : AgentHarness) (next : AgentHarness × Option Appending) : Prop :=
  next.1.session = h.session ∧ Begins next.2

theorem fresh_handleAgentEvent (h : AgentHarness) (event : AgentEvent) :
    Fresh h ((h.handleAgentEvent event).1, (h.handleAgentEvent event).2.append?) := by
  unfold AgentHarness.handleAgentEvent
  split
  · exact ⟨rfl, begins_naming rfl⟩
  · exact ⟨rfl, begins_none⟩
  · have hbegins := begins_next h.pendingSessionWrites
    split
    · next flush hnext =>
      rw [hnext] at hbegins
      exact ⟨rfl, hbegins⟩
    · exact ⟨rfl, begins_none⟩
  · exact ⟨rfl, begins_none⟩

theorem fresh_flushTurn (h : AgentHarness) (threw : Bool) :
    Fresh h ((h.flushTurn threw).1, (h.flushTurn threw).2.append? Handling.append?) := by
  have hbegins := begins_next h.pendingSessionWrites
  unfold AgentHarness.flushTurn
  split
  · next flush hnext =>
    rw [hnext] at hbegins
    exact ⟨rfl, hbegins⟩
  · cases threw
    · exact ⟨rfl, begins_none⟩
    · exact ⟨rfl, begins_none⟩

variable {append : Option Appending} {next : AgentHarness × Option Appending}

theorem AppendSteps.trans_fresh (hs : AppendSteps h.session append h'.session none)
    (hnext : Fresh h' next) : AppendSteps h.session append next.1.session next.2 := by
  obtain ⟨hsession, hbegins⟩ := hnext
  rw [hsession]
  generalize h'.session = session at hs
  cases hs with
  | stays => exact .ends hbegins
  | ends _ => exact .ends hbegins
  | written _ => exact .written hbegins

theorem Fresh.steps (hnext : Fresh h next) :
    AppendSteps h.session append next.1.session next.2 := by
  rw [hnext.1]
  exact .ends hnext.2

variable {handling : Handling}

theorem Handling.step_append {input : HandlingInput} {progress : Progress Handling}
    (hs : handling.step h input = some (h', progress)) :
    AppendSteps h.session handling.append? h'.session (progress.append? Handling.append?) := by
  unfold Handling.step at hs
  split at hs
  · obtain ⟨⟨session, progress'⟩, hstep, heq⟩ := map_eq_some_iff.1 hs
    have happend := Appending.step_append hstep
    cases progress' <;> cases heq <;> exact happend
  · next threw flush _ =>
    obtain ⟨⟨h'', progress'⟩, hstep, heq⟩ := map_eq_some_iff.1 hs
    have happend := Flush.step_append hstep
    cases progress' with
    | pending | threw =>
      cases heq
      exact happend
    | done =>
      cases heq
      cases threw <;> exact happend
  · obtain ⟨⟨h'', progress'⟩, hstep, heq⟩ := map_eq_some_iff.1 hs
    have happend := Flush.step_append hstep
    cases progress' <;> cases heq <;> exact happend
  · cases hs
    exact .stays
  · cases hs
    exact .stays
  · have hfresh := fresh_flushTurn h false
    rw [some.inj hs] at hfresh
    exact hfresh.steps
  · have hfresh := fresh_flushTurn h true
    rw [some.inj hs] at hfresh
    exact hfresh.steps
  · cases hs
    exact .stays
  · cases hs
    exact .stays
  · cases hs

/-- The harness and the append of a run that goes on. -/
def runAppend (next : AgentHarness × RunStage) : AgentHarness × Option Appending :=
  (next.1, next.2.append?)

theorem Fresh.mono (hnext : Fresh h' next) (hsession : h'.session = h.session) : Fresh h next :=
  ⟨hnext.1.trans hsession, hnext.2⟩

variable {next : AgentHarness × RunStage}

/-- A run that goes on. -/
theorem Fresh.onward (hnext : Fresh h (runAppend next)) :
    AppendSteps h.session append next.1.session ((some next.2).bind RunStage.append?) :=
  hnext.steps

theorem fresh_close (h : AgentHarness) (completed : Bool) :
    Fresh h (runAppend (h.close completed)) := by
  have hbegins := begins_next h.pendingSessionWrites
  unfold AgentHarness.close
  refine ⟨rfl, ?_⟩
  cases hnext : Flush.next h.pendingSessionWrites with
  | none => exact begins_none
  | some flush =>
    rw [hnext] at hbegins
    exact hbegins

theorem fresh_report (h : AgentHarness) (events : List AgentEvent) :
    Fresh h (runAppend (h.report events)) := by
  cases events with
  | nil => exact fresh_close h true
  | cons event rest => exact fresh_handleAgentEvent h event

theorem fresh_fail (h : AgentHarness) (run : Nat) (model : ModelRef) (moment : Moment) :
    Fresh h (runAppend (h.fail run model moment)) := fresh_report h _

theorem fresh_react (h : AgentHarness) (run : Nat) (model : ModelRef) (moment : Moment)
    (stepped : Loop × List AgentEvent) : Fresh h (runAppend (h.react run model moment stepped)) := by
  unfold AgentHarness.react
  split
  · exact fresh_handleAgentEvent h _
  · split
    · exact fresh_close h _
    · exact fresh_fail h run model moment
    · exact ⟨rfl, begins_none⟩

theorem fresh_resumeLoop (h : AgentHarness) (run : Nat) (loop : Loop) (model : ModelRef)
    (moment : Moment) : Fresh h (runAppend (h.resumeLoop run loop model moment)) := by
  unfold AgentHarness.resumeLoop
  split
  · exact fresh_react h run model moment _
  · exact ⟨rfl, begins_none⟩

theorem unshift_session (h : AgentHarness) (name : QueueName) (array : Nat)
    (messages : List AgentMessage) : (h.unshift name array messages).session = h.session := by
  unfold AgentHarness.unshift
  dsimp only
  split
  · cases name <;> rfl
  · rfl

variable {run : Nat}

theorem stepLoop_append {loop : Loop} {model : ModelRef} {input : AgentLoop.Input}
    (hs : stepLoop h run loop model handling moment input = some next) :
    AppendSteps h.session handling.append? next.1.session next.2.append? := by
  unfold stepLoop at hs
  split at hs
  · obtain ⟨stepped, -, rfl⟩ := map_eq_some_iff.1 hs
    exact .stays
  · split at hs
    · obtain ⟨stepped, -, rfl⟩ := map_eq_some_iff.1 hs
      exact (fresh_react h run model moment stepped).steps
    · cases hs

theorem RunStage.step_append {stage : RunStage} {input : RunInput} {next : Option RunStage}
    (hs : stage.step h run moment input = some (h', next)) :
    AppendSteps h.session stage.append? h'.session (next.bind RunStage.append?) := by
  unfold RunStage.step at hs
  split at hs
  · split at hs
    · cases hs
      exact .stays
    · cases hs
      exact .stays
  · cases hs
    exact .stays
  · cases hs
    exact .stays
  · cases hs
    exact .stays
  · cases hs
    have hfresh := fresh_resumeLoop { h with runAbortController := some run } run
    exact Fresh.onward ((hfresh _ _ moment).mono rfl)
  · cases hs
    exact .stays
  · next loop model handling input =>
    obtain ⟨⟨h'', progress⟩, hhandling, heq⟩ := map_eq_some_iff.1 hs
    have happend := Handling.step_append hhandling
    cases progress with
    | pending rest =>
      cases heq
      exact happend
    | done =>
      cases heq
      exact happend.trans_fresh (fresh_resumeLoop _ run _ _ moment)
    | threw =>
      cases heq
      exact happend.trans_fresh (fresh_fail _ run model moment)
  · obtain ⟨next', hstep, heq⟩ := map_eq_some_iff.1 hs
    cases heq
    exact stepLoop_append hstep
  · split at hs
    · cases hs
    · next name _ =>
      split at hs
      · dsimp only at hs
        split at hs
        · obtain ⟨stepped, -, heq⟩ := bind_eq_some_iff.1 hs
          cases heq
          exact (fresh_react h run _ moment stepped).steps
        · cases hs
          cases name <;> exact .ends begins_none
      · cases hs
  · split at hs
    · cases hs
      have hbegins := begins_next h.pendingSessionWrites
      refine .ends ?_
      cases hnext : Flush.next h.pendingSessionWrites with
      | none => exact begins_none
      | some flush =>
        rw [hnext] at hbegins
        exact hbegins
    · cases hs
  · obtain ⟨stepped, -, heq⟩ := bind_eq_some_iff.1 hs
    cases heq
    exact (fresh_react h run _ moment stepped).steps
  · next model name array messages =>
    have hfresh := (fresh_fail (h.unshift name array messages) run model moment).mono
      (unshift_session h name array messages)
    cases hs
    exact hfresh.onward
  · next loop model flush input =>
    obtain ⟨⟨h'', progress⟩, hflush, heq⟩ := map_eq_some_iff.1 hs
    have happend := Flush.step_append hflush
    cases progress with
    | pending | done =>
      cases heq
      exact happend
    | threw =>
      cases heq
      exact happend.trans_fresh (fresh_fail _ run model moment)
  · obtain ⟨stepped, -, heq⟩ := bind_eq_some_iff.1 hs
    cases heq
    exact (fresh_react h run _ moment stepped).steps
  · next model =>
    have hfresh := fresh_fail h run model moment
    cases hs
    exact hfresh.onward
  · obtain ⟨⟨h'', progress⟩, hhandling, heq⟩ := map_eq_some_iff.1 hs
    have happend := Handling.step_append hhandling
    cases progress with
    | pending rest =>
      cases heq
      exact happend
    | done =>
      cases heq
      exact happend.trans_fresh (fresh_report _ _)
    | threw =>
      cases heq
      exact happend.trans_fresh (fresh_close _ false)
  · obtain ⟨⟨h'', progress⟩, hflush, heq⟩ := map_eq_some_iff.1 hs
    have happend := Flush.step_append hflush
    cases progress <;> cases heq <;> exact happend
  · cases hs
    exact .stays
  · cases hs

/-- Is the call a navigation? -/
def Call.isNavigation : Call → Bool
  | .navigateTree _ => true
  | _ => false

variable {call : Call} {input : CallInput}

theorem Call.step_append {next : Option Call} (hcall : call.isNavigation = false)
    (hs : call.step h moment input = some (h', next)) :
    AppendSteps h.session call.append? h'.session (next.bind Call.append?) ∧
      ∀ c ∈ next, c.isNavigation = false := by
  unfold Call.step at hs
  split at hs
  · obtain ⟨⟨h'', stage'⟩, hstep, heq⟩ := map_eq_some_iff.1 hs
    cases heq
    have happend := RunStage.step_append hstep
    cases stage' with
    | none => exact ⟨happend, by simp⟩
    | some stage' => exact ⟨happend, by simp [Call.isNavigation]⟩
  · cases hs
    exact ⟨.ends (begins_naming rfl), by simp [Call.isNavigation]⟩
  · obtain ⟨⟨session, progress⟩, hstep, heq⟩ := map_eq_some_iff.1 hs
    have happend := Appending.step_append hstep
    cases progress <;> cases heq <;> exact ⟨happend, by simp [Call.isNavigation]⟩
  · cases hs
    exact ⟨.stays, by simp⟩
  · cases hs
    exact ⟨.stays, by simp⟩
  · cases hcall
  · cases hcall
  · obtain ⟨⟨session, progress⟩, hstep, heq⟩ := map_eq_some_iff.1 hs
    have happend := Appending.step_append hstep
    cases progress <;> cases heq <;> exact ⟨happend, by simp [Call.isNavigation]⟩
  · split at hs
    · split at hs
      · cases hs
        exact ⟨.stays, by simp⟩
      · cases hs
    · cases hs
      exact ⟨.stays, by simp⟩
  · cases hs

/-! ## Serial appends -/

/-- Has the append read the leaf, but not moved it? -/
def Appending.hasRead : Appending → Bool
  | .writing _ => true
  | _ => false

/-- The id that an append was given. -/
def Appending.id? : Appending → Option String
  | .naming _ => none
  | .reading id _ => some id
  | .writing entry => some entry.id

/-- Two appends do not get into each other's way: they have not both read the leaf, and they were
not given the same id. -/
def Appending.Apart (a b : Appending) : Prop :=
  ¬(a.hasRead = true ∧ b.hasRead = true) ∧ ∀ id, a.id? = some id → b.id? ≠ some id

variable {a : Appending}

theorem Appending.Apart.symm {b : Appending} (h : a.Apart b) : b.Apart a :=
  ⟨fun ⟨hb, ha⟩ => h.1 ⟨ha, hb⟩, fun id hb ha => h.2 id ha hb⟩

/-- No two appends under way get into each other's way. -/
def System.Serial (s : System) : Prop :=
  (s.calls.filterMap Call.append?).Pairwise Appending.Apart

/-- What an append under way has found out still holds. -/
def Appending.Fits (session : Storage) : Appending → Prop
  | .naming body => body.isLeaf = false
  | .reading id body => body.isLeaf = false ∧ id ≠ "" ∧ session.byId.has id = false
  | .writing entry => entry.body.isLeaf = false ∧ entry.id ≠ "" ∧
      session.byId.has entry.id = false ∧ entry.parentId = session.leafId

/-- The entries added to a session are the end of the path of the leaf. -/
structure Linear (initial : Storage) (s : System) : Prop where
  path : ∃ earlier added, LeafPath s.harness.session (earlier ++ added) ∧
    (ids (earlier ++ added)).Nodup ∧ s.harness.session.entries = initial.entries ++ added
  named : ∀ id, s.harness.session.leafId = some id → id ≠ ""
  calls : ∀ call ∈ s.calls, call.isNavigation = false
  appends : ∀ call ∈ s.calls, ∀ a ∈ call.append?, a.Fits s.harness.session

theorem Begins.fits {next : Option Appending} (h : Begins next) :
    ∀ a ∈ next, a.Fits session := by
  intro a ha
  obtain ⟨body, hbody, rfl⟩ := h a ha
  exact hbody

/-- An append that is apart from one that is written still fits. -/
theorem Appending.Fits.appendEntry (h : a.Fits session)
    (hapart : (Appending.writing entry).Apart a) : a.Fits (session.appendEntry entry) := by
  have hother : ∀ id, a.id? = some id → session.byId.has id = false →
      (session.appendEntry entry).byId.has id = false := by
    intro id hid hnew
    have hne : id ≠ entry.id := by
      rintro rfl
      exact hapart.2 _ rfl hid
    rw [OrderedMap.has] at hnew ⊢
    rw [Storage.appendEntry, OrderedMap.get?_set_ne _ _ hne]
    exact hnew
  cases a with
  | naming body => exact h
  | reading id body => exact ⟨h.1, h.2.1, hother id rfl h.2.2⟩
  | writing entry' => exact absurd ⟨rfl, rfl⟩ hapart.1

variable {initial : Storage}

/-- A step of a call. -/
theorem Linear.stepCall (hl : Linear initial s) (hserial : s.Serial) {pre post : List Call}
    {next : Option Call} (hsplit : s.calls = pre ++ call :: post)
    (hstep : call.step s.harness moment input = some (s'.harness, next))
    (hcalls : s'.calls = pre ++ next.toList ++ post) : Linear initial s' := by
  have hmem : ∀ c ∈ s'.calls, c ∈ next ∨ c ∈ pre ++ post := by
    intro c hc
    rw [hcalls, append_assoc, mem_append, mem_append] at hc
    rcases hc with h | h | h
    · exact Or.inr (mem_append_left _ h)
    · exact Or.inl (mem_toList.1 h)
    · exact Or.inr (mem_append_right _ h)
  have hold : ∀ c ∈ pre ++ post, c ∈ s.calls := by
    intro c hc
    rw [hsplit]
    rcases List.mem_append.1 hc with h | h
    · exact mem_append_left _ h
    · exact mem_append_right _ (mem_cons_of_mem _ h)
  have hself : call ∈ s.calls := by rw [hsplit]; simp
  obtain ⟨hsteps, hnavigation⟩ := Call.step_append (hl.calls call hself) hstep
  have hcallsOk : ∀ c ∈ s'.calls, c.isNavigation = false := by
    intro c hc
    rcases hmem c hc with h | h
    · exact hnavigation c h
    · exact hl.calls c (hold c h)
  have hfit := hl.appends call hself
  obtain ⟨earlier, added, hpath, hnodup, hentries⟩ := hl.path
  -- the other appends are apart from that of this call
  have hapart : ∀ c ∈ pre ++ post, ∀ a ∈ call.append?, ∀ b ∈ c.append?, a.Apart b := by
    intro c hc a ha b hb
    unfold System.Serial at hserial
    rw [hsplit, filterMap_append, filterMap_cons_some (Option.mem_def.1 ha),
      pairwise_append, pairwise_cons] at hserial
    obtain ⟨-, ⟨hpost, -⟩, hpre⟩ := hserial
    rcases List.mem_append.1 hc with h | h
    · exact (hpre b (List.mem_filterMap.2 ⟨c, h, hb⟩) a (mem_cons_self ..)).symm
    · exact hpost b (List.mem_filterMap.2 ⟨c, h, hb⟩)
  -- as long as the session is the same, only the append of this call is new
  have hsame : s'.harness.session = s.harness.session →
      (∀ a ∈ next.bind Call.append?, a.Fits s.harness.session) → Linear initial s' := by
    intro hsession hnext
    refine ⟨⟨earlier, added, hsession ▸ hpath, hnodup, hsession ▸ hentries⟩, hsession ▸ hl.named,
      hcallsOk, fun c hc a ha => ?_⟩
    rw [hsession]
    rcases hmem c hc with h | h
    · exact hnext a (mem_bind_iff.2 ⟨c, h, ha⟩)
    · exact hl.appends c (hold c h) a ha
  generalize hbefore : call.append? = append at hsteps hfit hapart
  generalize hafter : next.bind Call.append? = append' at hsteps hsame
  generalize hsession : s'.harness.session = session' at hsteps hsame
  cases hsteps with
  | stays => exact hsame rfl hfit
  | ends hbegins => exact hsame rfl hbegins.fits
  | named hne hnew =>
    refine hsame rfl fun a ha => ?_
    obtain rfl := some.inj ha
    exact ⟨hfit _ rfl, hne, hnew⟩
  | read =>
    refine hsame rfl fun a ha => ?_
    obtain rfl := some.inj ha
    obtain ⟨hbody, hne, hnew⟩ := hfit _ rfl
    exact ⟨hbody, hne, hnew, rfl⟩
  | @written entry _ hbegins =>
    obtain ⟨hbody, hne, hnew, hparent⟩ := hfit _ rfl
    refine ⟨⟨earlier, added ++ [entry], ?_, ?_, ?_⟩, ?_, hcallsOk, fun c hc a ha => ?_⟩
    · rw [hsession, ← append_assoc]
      exact hpath.append hl.named hbody hnew hparent
    · rw [← append_assoc, ids, map_append, nodup_append]
      refine ⟨hnodup, by simp, ?_⟩
      rintro id hid other hother rfl
      obtain rfl : id = entry.id := by simpa using hother
      obtain ⟨e, he, heq⟩ := List.mem_map.1 hid
      have hhas : s.harness.session.byId.has e.id = true := hpath.has e he
      rw [heq, hnew] at hhas
      cases hhas
    · rw [hsession]
      change s.harness.session.entries ++ [entry] = _
      rw [hentries, append_assoc]
    · intro id hid
      rw [hsession, leafId_appendEntry hbody] at hid
      exact some.inj hid ▸ hne
    · rw [hsession]
      rcases hmem c hc with h | h
      · exact hbegins.fits a (by rw [← hafter]; exact mem_bind_iff.2 ⟨c, h, ha⟩)
      · exact (hl.appends c (hold c h) a ha).appendEntry (hapart c h _ rfl a ha)

/-- Steps that leave the session as it is and may add a call. -/
theorem Linear.add (hl : Linear initial s) (call : Option Call)
    (hsession : s'.harness.session = s.harness.session) (hcalls : s'.calls = s.calls ++ call.toList)
    (hnavigation : ∀ c ∈ call, c.isNavigation = false) (hbegins : Begins (call.bind Call.append?)) :
    Linear initial s' := by
  have hmem : ∀ c ∈ s'.calls, c ∈ s.calls ∨ c ∈ call := by
    intro c hc
    rw [hcalls, mem_append] at hc
    exact hc.imp id mem_toList.1
  refine ⟨hsession ▸ hl.path, hsession ▸ hl.named, fun c hc => ?_, fun c hc a ha => ?_⟩
  · rcases hmem c hc with h | h
    · exact hl.calls c h
    · exact hnavigation c h
  · rw [hsession]
    rcases hmem c hc with h | h
    · exact hl.appends c h a ha
    · exact hbegins.fits a (mem_bind_iff.2 ⟨c, h, ha⟩)

theorem push_session (h : AgentHarness) (m : AgentMessage) (name : QueueName) :
    (h.push m name).session = h.session := by
  cases name <;> rfl

theorem body_isLeaf (write : PendingSessionWrite) : write.body.isLeaf = false := by
  cases write <;> rfl

/-- **A step keeps the added entries on the path of the leaf.** -/
theorem Linear.step (hl : Linear initial s) (hserial : s.Serial) {action : Action}
    (haction : action ≠ .navigateTree) (hs : s.step action = some s') :
    Linear initial s' := by
  cases action with
  | step index input moment =>
    obtain ⟨pre, call, post, next, hsplit, -, hstep, hcalls, -, -⟩ := System.step_call hs
    exact hl.stepCall hserial hsplit hstep hcalls
  | prompt =>
    obtain rfl := some.inj hs
    unfold System.start
    by_cases hidle : s.harness.phase = .idle
    · rw [if_pos hidle]
      exact hl.add (some (.run s.nextRun .creating)) (by simp [hidle]) (by simp [hidle])
        (by simp [Call.isNavigation]) begins_none
    · exact hl.add none (by simp [hidle]) (by simp [hidle]) (by simp) begins_none
  | compact =>
    obtain rfl := some.inj hs
    unfold System.start
    split
    · exact hl.add (some (.compact .preparing)) rfl rfl (by simp [Call.isNavigation])
        begins_none
    · exact hl
  | navigateTree => exact absurd rfl haction
  | steer m =>
    unfold System.step at hs
    dsimp only at hs
    split at hs <;> obtain rfl := some.inj hs
    · exact hl
    · exact hl.add none (push_session _ m .steer) (by simp) (by simp) begins_none
  | followUp m =>
    unfold System.step at hs
    dsimp only at hs
    split at hs <;> obtain rfl := some.inj hs
    · exact hl
    · exact hl.add none (push_session _ m .followUp) (by simp) (by simp) begins_none
  | nextTurn | abort =>
    obtain rfl := some.inj hs
    exact hl.add none rfl (by simp) (by simp) begins_none
  | write w =>
    unfold System.step at hs
    dsimp only at hs
    split at hs <;> obtain rfl := some.inj hs
    · exact hl.add (some (.write w (.naming w.body))) rfl rfl (by simp [Call.isNavigation])
        (begins_naming (body_isLeaf w))
    · exact hl.add none rfl (by simp) (by simp) begins_none
  | waitForIdle =>
    obtain rfl := some.inj hs
    exact hl.add (some (.wait s.harness.runPromise s.runs)) rfl rfl
      (by simp [Call.isNavigation]) begins_none

/-- In every state of a sequence of actions, appends are serial. -/
def AlwaysSerial : System → List Action → Prop
  | _, [] => True
  | s, action :: actions => s.Serial ∧ ∀ s', s.step action = some s' → AlwaysSerial s' actions

theorem Linear.after (hl : Linear initial s) {actions : List Action}
    (hactions : .navigateTree ∉ actions) (hserial : AlwaysSerial s actions)
    (hs : s.after actions = some s') : Linear initial s' := by
  induction actions generalizing s with
  | nil =>
    obtain rfl := some.inj hs
    exact hl
  | cons action actions ih =>
    obtain ⟨s'', hstep, hrest⟩ := bind_eq_some_iff.1 hs
    rw [mem_cons, not_or] at hactions
    exact ih (hl.step hserial.1 (Ne.symm hactions.1) hstep) hactions.2 (hserial.2 s'' hstep) hrest

/-! ## A session at the start -/

/-- Well-formed entries have a path each. -/
theorem WellFormed.pathTo {entries : List TreeEntry} (h : WellFormed entries) (n : Nat)
    {pre post : List TreeEntry} (heq : entries = pre ++ entry :: post) (hn : pre.length < n) :
    ∃ path, PathTo (indexOf entries) entry.id path ∧ List.Sublist path (pre ++ [entry]) := by
  induction n generalizing pre entry post with
  | zero => exact absurd hn (Nat.not_lt_zero _)
  | succ n ih =>
    have hget : (indexOf entries).get? entry.id = some entry := by
      rw [get?_indexOf h.nodup, heq]
      exact ⟨by simp, rfl⟩
    by_cases hroot : entry.parentId.getD "" = ""
    · exact ⟨[entry], .root hget hroot, sublist_append_right _ _⟩
    · obtain ⟨parentId, hparent, hne⟩ : ∃ parentId, entry.parentId = some parentId ∧
          parentId ≠ "" := by
        cases hp : entry.parentId with
        | none => simp [hp] at hroot
        | some parentId => exact ⟨parentId, rfl, by simpa [hp] using hroot⟩
      have href : parentId ∈ ids pre := by
        refine (h.extends heq).refs _ ?_
        rw [TreeEntry.refs, mem_append, hparent]
        exact Or.inl (by simpa using hne)
      obtain ⟨parent, hmem, hid⟩ := List.mem_map.1 href
      obtain ⟨earlier, later, hpre⟩ := append_of_mem hmem
      have hearlier : entries = earlier ++ parent :: (later ++ entry :: post) := by
        rw [heq, hpre]
        simp
      have hlength : earlier.length < n := by
        rw [hpre, length_append, length_cons] at hn
        omega
      obtain ⟨path, hpath, hsub⟩ := ih hearlier hlength
      rw [hid] at hpath
      refine ⟨path ++ [entry], .child hget hparent hne hpath, ?_⟩
      rw [hpre]
      exact (hsub.trans (by simp)).append (List.Sublist.refl _)

/-- The leaf of a sound session has a path, without an entry twice. -/
theorem Storage.Sound.leafPath (h : session.Sound) :
    ∃ path, LeafPath session path ∧ (ids path).Nodup := by
  unfold LeafPath
  cases hleaf : session.leafId with
  | none => exact ⟨[], rfl, nodup_nil⟩
  | some id =>
    obtain ⟨entry, hmem, rfl⟩ := List.mem_map.1 (h.leaf hleaf)
    obtain ⟨pre, post, heq⟩ := append_of_mem hmem
    obtain ⟨path, hpath, hsub⟩ := h.wellFormed.pathTo _ heq (Nat.lt_succ_self _)
    refine ⟨path, h.byId ▸ hpath, ?_⟩
    have hnodup := h.wellFormed.nodup
    rw [heq, ids, map_append, map_cons] at hnodup
    refine List.Nodup.sublist ((hsub.map (·.id)).trans ?_) hnodup
    rw [map_append]
    exact (List.Sublist.refl _).append (by simp)

theorem linear_initial (h : session.Sound) (model : ModelRef)
    (steeringMode followUpMode : QueueMode) :
    Linear session (.initial session model steeringMode followUpMode) := by
  obtain ⟨path, hpath, hnodup⟩ := h.leafPath
  refine ⟨⟨path, [], ?_, ?_, (append_nil _).symm⟩, fun id hid => ?_, ?_, ?_⟩
  · rw [append_nil]
    exact hpath
  · rw [append_nil]
    exact hnodup
  · obtain ⟨entry, hmem, rfl⟩ := List.mem_map.1 (h.leaf hid)
    exact (h.wellFormed.of_mem hmem).1
  · exact fun call hcall => absurd hcall (not_mem_nil)
  · exact fun call hcall => absurd hcall (not_mem_nil)

/-- **While no two appends stand between the reading and the moving of the leaf, every entry that
the harness appends is on the path of the leaf, exactly once.** -/
theorem after_linear (hsession : Reachable session) (model : ModelRef)
    (steeringMode followUpMode : QueueMode) {actions : List Action}
    (hactions : .navigateTree ∉ actions)
    (hserial : AlwaysSerial (.initial session model steeringMode followUpMode) actions)
    (hs : (System.initial session model steeringMode followUpMode).after actions = some s') :
    ∃ path, LeafPath s'.harness.session path ∧
      ∃ added, s'.harness.session.entries = session.entries ++ added ∧
        ∀ entry ∈ added, path.count entry = 1 := by
  obtain ⟨⟨earlier, added, hpath, hnodup, hentries⟩, -, -, -⟩ :=
    (linear_initial hsession.sound model steeringMode followUpMode).after hactions hserial hs
  refine ⟨_, hpath, added, hentries, fun entry hentry => ?_⟩
  exact count_eq_one_of_mem (List.Nodup.of_map _ hnodup) (mem_append_right _ hentry)

/-- A step of an append, of the call at an index. -/
def appendStep (index : Nat) (input : AppendInput) : Action := .step index (.append input) ⟨"", 0⟩

instance (a b : Appending) : Decidable (a.Apart b) :=
  decidable_of_iff (¬(a.hasRead = true ∧ b.hasRead = true) ∧ (a.id? = none ∨ a.id? ≠ b.id?)) <| by
    refine and_congr_right fun _ => ⟨fun h id ha hb => ?_, fun h => ?_⟩
    · rcases h with h | h
      · rw [ha] at h
        cases h
      · exact h (ha.trans hb.symm)
    · cases ha : a.id? with
      | none => exact Or.inl rfl
      | some id => exact Or.inr fun heq => h id ha heq.symm

instance (s : System) : Decidable s.Serial := inferInstanceAs (Decidable (List.Pairwise _ _))

/-- Serial appends can be checked along a run. -/
instance decidableAlwaysSerial : (s : System) → (actions : List Action) →
    Decidable (AlwaysSerial s actions)
  | _, [] => isTrue trivial
  | s, action :: actions =>
    letI : Decidable (∀ s', s.step action = some s' → AlwaysSerial s' actions) :=
      match s.step action with
      | none => isTrue fun _ h => nomatch h
      | some s' =>
        match decidableAlwaysSerial s' actions with
        | isTrue h => isTrue fun _ heq => some.inj heq ▸ h
        | isFalse h => isFalse fun hall => h (hall s' rfl)
    inferInstanceAs (Decidable (s.Serial ∧ _))

/-- A session that has an entry already. -/
def openedSession : Storage := .ofEntries [⟨"root", none, "t", .sessionInfo none⟩]

theorem openedSession_reachable : Reachable openedSession :=
  .start (.snoc .nil ⟨by decide, by decide, by decide, rfl⟩)

/-- A step of the run of the call at an index. -/
def promptStep (index : Nat) (input : RunInput) : Action := .step index (.run input) ⟨"", 0⟩

/-- The session gives an id, reads the leaf and writes. -/
def appendInputs (id : String) : List AppendInput := [.named id, .read "t", .written]

/-- A model and a thinking level are set at once and a prompt follows: both entries have their ids
before either has read the leaf, and the second one is written while the message of the prompt has
its id already.  Tools that are set during the turn are written when it ends. -/
def settersAndPrompt : List Action :=
  [.write (.modelChange "p" "n"), .write (.thinkingLevelChange "high"),
    appendStep 0 (.named "a"), appendStep 1 (.named "b"), .prompt,
    appendStep 0 (.read "t"), appendStep 0 .written,
    promptStep 1 (.created ⟨[], [], ⟨"p", "n"⟩⟩ (.user ⟨some (.str "hi"), 0⟩)),
    promptStep 1 (.resume []), promptStep 1 (.handling .resume), promptStep 1 (.handling .resume),
    promptStep 1 (.handling .resume), promptStep 1 (.handling (.append (.named "c"))),
    appendStep 0 (.read "t"), appendStep 0 .written, .write (.activeToolsChange ["read"])] ++
  [.read "t", .written].map (fun input => promptStep 0 (.handling (.append input))) ++
  [promptStep 0 (.handling .resume), promptStep 0 .poll,
    promptStep 0 (.loop (.streamEnd ⟨some [.text "ok"], "p", "n", .zero, .stop, none, 0⟩)),
    promptStep 0 (.handling .resume)] ++
  (appendInputs "d").map (fun input => promptStep 0 (.handling (.append input))) ++
  [promptStep 0 (.handling .resume), promptStep 0 (.handling .resume)] ++
  (appendInputs "e").map (fun input => promptStep 0 (.handling (.flush (.append input))))

/-- Two appends are under way after four actions, and again after thirteen; all five entries are on
the path, below the one that the session had. -/
theorem after_linear_settersAndPrompt : ∃ s',
    (System.initial openedSession ⟨"p", "m"⟩ .all .all).after settersAndPrompt = some s' ∧
    (∀ n ∈ [4, 13], ((System.initial openedSession ⟨"p", "m"⟩ .all .all).after
      (settersAndPrompt.take n)).map (fun s => (s.calls.filterMap Call.append?).length) =
        some 2) ∧
    s'.harness.session.entries.map (·.id) = ["root", "a", "b", "c", "d", "e"] ∧
    ∃ path, LeafPath s'.harness.session path ∧
      ∃ added, s'.harness.session.entries = openedSession.entries ++ added ∧
        ∀ entry ∈ added, path.count entry = 1 := by
  have hids : ((System.initial openedSession ⟨"p", "m"⟩ .all .all).after settersAndPrompt).map
      (fun s => s.harness.session.entries.map (·.id)) =
        some ["root", "a", "b", "c", "d", "e"] := by
    decide +kernel
  obtain ⟨s', hs, hentries⟩ := map_eq_some_iff.1 hids
  refine ⟨s', hs, by decide +kernel, hentries, ?_⟩
  exact after_linear openedSession_reachable ⟨"p", "m"⟩ .all .all
    (by simp [settersAndPrompt, appendStep, promptStep, appendInputs]) (by decide +kernel) hs

theorem PathTo.of_root (h : PathTo byId id path) (hget : byId.get? id = some entry)
    (hroot : entry.parentId = none) : path = [entry] := by
  cases h with
  | root hget' _ => rw [some.inj (hget'.symm.trans hget)]
  | child hget' hparent _ _ =>
    rw [some.inj (hget'.symm.trans hget), hroot] at hparent
    cases hparent

/-- Two settings are changed at once: both entries become roots, and the first one is on no path of
the leaf. -/
theorem setters_fork : ¬∀ (session : Storage) (model : ModelRef) (mode : QueueMode)
    (actions : List Action) (s' : System), Reachable session → .navigateTree ∉ actions →
    (System.initial session model mode mode).after actions = some s' →
    ∃ path, LeafPath s'.harness.session path ∧
      ∃ added, s'.harness.session.entries = session.entries ++ added ∧
        ∀ entry ∈ added, path.count entry = 1 := by
  intro h
  obtain ⟨path, hpath, added, hadded, hcount⟩ := h (.ofEntries []) ⟨"p", "m"⟩ .all
    [.write (.modelChange "p" "n"), .write (.thinkingLevelChange "high"),
      appendStep 0 (.named "a"), appendStep 1 (.named "b"), appendStep 0 (.read "t"),
      appendStep 1 (.read "t"), appendStep 0 .written, appendStep 0 .written] _
    (.start .nil) (by simp [appendStep]) rfl
  obtain rfl : [(⟨"a", none, "t", .modelChange "p" "n"⟩ : TreeEntry),
    ⟨"b", none, "t", .thinkingLevelChange "high"⟩] = added := hadded
  obtain rfl := PathTo.of_root hpath
    (rfl : _ = some (⟨"b", none, "t", .thinkingLevelChange "high"⟩ : TreeEntry)) rfl
  have hfirst := hcount ⟨"a", none, "t", .modelChange "p" "n"⟩ (by simp)
  exact absurd hfirst (by decide)

end BeauPi.Harness
