import BeauPi.Documents.Runtime
import Mathlib.Tactic.Common

/-!
# When a contract is stale

A validation is about the documents of the contract that it has begun with, but it compares them with
the contract that is current when each of them is read, and marks the one that is current at its end.

* `Finished.Truthful` — the mark that a validation leaves is about the contract that has it.
* `Finished.Undisturbed` — no other contract came in between.
* `run_consistent` — what is known of the validations of a run.
* `run_truthful` — an undisturbed validation leaves a true mark.
-/

namespace BeauPi.Documents

open List

/-! ## True marks -/

/-- Does a document differ from the hash in a contract, or was it unavailable? -/
def Read.Differs (host : Host) (contract : ExecutionContract) (read : Read) : Prop :=
  match read.content with
  | none => True
  | some content =>
    contract.documentHash read.document.id ≠ some (host.hashDocumentContent content)

/-- Was the contract that a validation leaves resolved while the validation was suspended? -/
def Finished.ResolvedMeanwhile (finished : Finished) : Prop :=
  finished.current.resolved = true ∧ finished.validation.number < finished.current.since

/-- The contract is stale exactly if a document of its own has been read that differs from it, and is
not marked if it was resolved meanwhile. -/
structure Finished.Truthful (host : Host) (finished : Finished) : Prop where
  stale_iff : finished.current.contract.status = .stale ↔
    ∃ read ∈ finished.validation.reads, read.document ∈ finished.current.contract.documents ∧
      read.Differs host finished.current.contract
  resolved : finished.ResolvedMeanwhile → finished.current.contract.status ≠ .stale

/-- A contract has the documents of another one, with the same hashes. -/
def Agrees (contract current : ExecutionContract) : Prop :=
  ∀ document ∈ contract.documents, document ∈ current.documents ∧
    current.documentHash document.id = contract.documentHash document.id

/-- While the validation was suspended no contract became current that was resolved, or that does not
agree with the one that the validation has begun with, at a read or at the end. -/
structure Finished.Undisturbed (finished : Finished) : Prop where
  reads : ∀ read ∈ finished.validation.reads,
    ∃ current, read.current = some current ∧ Agrees finished.validation.contract current
  current : Agrees finished.validation.contract finished.current.contract
  unresolved : ¬finished.ResolvedMeanwhile

/-! ## Validations of a run -/

section Validations

variable {host : Host}

/-- A validation has read the first documents of its contract, and has their reasons. -/
structure Validation.Consistent (host : Host) (validation : Validation) : Prop where
  documents : validation.contract.documents =
    validation.reads.map (·.document) ++ validation.remaining
  reasons : validation.reasons = validation.reads.filterMap (reason host)

theorem Validation.consistent_start (number : Nat) (contract : ExecutionContract) :
    Validation.Consistent host ⟨number, contract, contract.documents, [], []⟩ where
  documents := rfl
  reasons := rfl

/-- A read document keeps a validation consistent. -/
theorem Validation.Consistent.next {validation : Validation} (h : validation.Consistent host)
    {document : DocumentReference} {rest : List DocumentReference}
    (hremaining : validation.remaining = document :: rest) (content : Option String)
    (current : Option ExecutionContract) :
    (validation.next host document rest content current).Consistent host where
  documents := by
    simp only [Validation.next, map_append, map_cons, map_nil, append_assoc,
      singleton_append]
    rw [h.documents, hremaining]
  reasons := by
    simp only [Validation.next, filterMap_append, h.reasons]
    cases hreason : reason host ⟨document, content, current⟩ with
    | none => simp [hreason]
    | some text => simp [hreason]

/-- What is known of the validations that are suspended or have finished. -/
structure Consistent (host : Host) (runtime : DocumentRuntime) : Prop where
  suspended : ∀ validation ∈ runtime.validations, validation.Consistent host
  finished : ∀ finished ∈ runtime.finished, finished.validation.Consistent host ∧
    (finished.current.contract.status = .stale ↔ finished.validation.reasons ≠ [])

variable {runtime : DocumentRuntime}

theorem consistent_proceed (h : Consistent host runtime) {validation : Validation}
    (hvalidation : validation.Consistent host) (timestamp : String) :
    Consistent host (runtime.proceed validation timestamp) := by
  unfold DocumentRuntime.proceed
  split
  next hmore =>
    refine ⟨?_, h.finished⟩
    intro other hother
    rcases mem_append.mp hother with hold | hnew
    · exact h.suspended other hold
    · rw [mem_singleton.mp hnew]
      exact hvalidation
  next hend =>
    cases hcurrent : runtime.currentContract with
    | none => exact h
    | some current =>
      refine ⟨h.suspended, ?_⟩
      intro other hother
      rcases mem_append.mp hother with hold | hnew
      · exact h.finished other hold
      · rw [mem_singleton.mp hnew]
        refine ⟨hvalidation, ?_⟩
        by_cases hreasons : validation.reasons = []
        · simp [validated, hreasons]
        · simp [validated, hreasons]

theorem consistent_validate (h : Consistent host runtime) (timestamp : String) :
    Consistent host (runtime.validateCurrentContract timestamp) := by
  unfold DocumentRuntime.validateCurrentContract
  cases hcurrent : runtime.currentContract with
  | none => exact h
  | some current =>
    have hbegun : Consistent host { runtime with begun := runtime.begun + 1 } :=
      ⟨h.suspended, h.finished⟩
    have hnext := consistent_proceed hbegun
      (Validation.consistent_start runtime.begun current.contract) timestamp
    rwa [hcurrent] at hnext

/-- No event makes a validation inconsistent. -/
theorem consistent_step (h : Consistent host runtime) (event : DocumentRuntime.Event)
    (timestamp : String) : Consistent host (runtime.step host event timestamp) := by
  cases event with
  | resolveTask | restoreContract => exact ⟨h.suspended, h.finished⟩
  | validateCurrentContract => exact consistent_validate h timestamp
  | noteFilesModified paths =>
    simp only [DocumentRuntime.step, DocumentRuntime.noteFilesModified]
    split
    next => exact h
    next current hcurrent =>
      split
      next => exact h
      next =>
        split
        next => exact consistent_validate h timestamp
        next => exact h
  | readFinished number content =>
    simp only [DocumentRuntime.step, DocumentRuntime.readFinished]
    cases hfind : runtime.validations.find? (·.number = number) with
    | none => exact h
    | some validation =>
      cases hremaining : validation.remaining with
      | nil => simpa only [hremaining] using h
      | cons document rest =>
        simp only [hremaining]
        have hvalidation : validation.Consistent host :=
          h.suspended validation (mem_of_find?_eq_some hfind)
        have hothers : Consistent host { runtime with
            validations := runtime.validations.filter (·.number ≠ number) } :=
          ⟨fun other hother => h.suspended other (mem_of_mem_filter hother), h.finished⟩
        exact consistent_proceed hothers (hvalidation.next hremaining content _) timestamp

/-- The validations of a run are consistent. -/
theorem run_consistent (h : Consistent host runtime)
    (events : List (DocumentRuntime.Event × String)) :
    Consistent host (runtime.run host events) := by
  induction events generalizing runtime with
  | nil => exact h
  | cons event events ih => exact ih (consistent_step h event.1 event.2)

/-! ## Reasons -/

/-- A document gives a reason exactly if it differs from the contract that was current. -/
theorem reason_ne_none_iff {read : Read} {current : ExecutionContract}
    (hcurrent : read.current = some current) :
    reason host read ≠ none ↔ read.Differs host current := by
  unfold reason Read.Differs
  cases hcontent : read.content with
  | none => simp
  | some content =>
    simp only [hcurrent, Option.bind_some]
    split
    next hsame => simp [← hsame]
    next hother => simpa using fun heq => hother heq.symm

/-- Contracts that agree have the same differences. -/
theorem differs_congr {read : Read} {contract current : ExecutionContract}
    (h : current.documentHash read.document.id = contract.documentHash read.document.id) :
    read.Differs host current ↔ read.Differs host contract := by
  unfold Read.Differs
  rw [h]

end Validations

/-! ## Truth -/

/-- A validation during which no other contract came in between leaves a true mark: **the contract is
stale exactly if one of its documents was read with another hash or was unavailable**. -/
theorem run_truthful (host : Host) (events : List (DocumentRuntime.Event × String))
    (finished : Finished) (hmem : finished ∈ (DocumentRuntime.run host {} events).finished)
    (h : finished.Undisturbed) : finished.Truthful host := by
  have hconsistent : Consistent host (DocumentRuntime.run host {} events) :=
    run_consistent ⟨by simp, by simp⟩ events
  obtain ⟨hvalidation, hstatus⟩ := hconsistent.finished finished hmem
  refine ⟨?_, fun hmeanwhile => absurd hmeanwhile h.unresolved⟩
  have hown : ∀ read ∈ finished.validation.reads,
      read.document ∈ finished.validation.contract.documents := by
    intro read hread
    rw [hvalidation.documents]
    exact mem_append_left _ (mem_map_of_mem hread)
  have hreason : ∀ read ∈ finished.validation.reads,
      reason host read ≠ none ↔ read.Differs host finished.current.contract := by
    intro read hread
    obtain ⟨current, hcurrent, hagrees⟩ := h.reads read hread
    have hthen := (hagrees read.document (hown read hread)).2
    have hnow := (h.current read.document (hown read hread)).2
    rw [reason_ne_none_iff hcurrent, differs_congr hthen, differs_congr hnow]
  rw [hstatus, hvalidation.reasons, ne_eq, filterMap_eq_nil_iff]
  constructor
  · intro hsome
    obtain ⟨read, hread⟩ := not_forall.mp hsome
    obtain ⟨hread, hnone⟩ := Classical.not_imp.mp hread
    exact ⟨read, hread, (h.current read.document (hown read hread)).1, (hreason read hread).mp hnone⟩
  · rintro ⟨read, hread, -, hdiffers⟩ hall
    exact (hreason read hread).mpr hdiffers (hall read hread)

/-! ## Two tasks and a suspended validation -/

/-- Hashes that show the content. -/
def plainHost : Host where
  resolve path := path
  hashDocumentContent content := content
  stableDocumentId kind parts := kind ++ "_" ++ String.intercalate "-" parts
  normalizeText text := text

/-- A document of a directory. -/
def documentOf (name hash : String) : DocumentReference :=
  ⟨"document_" ++ name, "/docs/" ++ name, name, hash, false⟩

/-- A contract is restored again while its document is read, which has changed. -/
def restoredMeanwhile : List (DocumentRuntime.Event × String) :=
  let contract : ExecutionContract :=
    ⟨"contract_a", "first", "task_first", [documentOf "a.md" "one"], [("document_a.md", "one")],
      "t0", "t0", .active, []⟩
  [(.restoreContract (some contract), "t1"), (.validateCurrentContract, "t2"),
    (.restoreContract (some contract), "t3"), (.readFinished 0 (some "two"), "t4")]

theorem run_truthful_restored :
    ∃ finished ∈ (DocumentRuntime.run plainHost {} restoredMeanwhile).finished,
      finished.current.contract.status = .stale ∧ finished.Truthful plainHost := by
  have hfinished : ∃ finished, (DocumentRuntime.run plainHost {} restoredMeanwhile).finished =
      [finished] ∧ finished.current.contract.status = .stale ∧ finished.Undisturbed := by
    refine ⟨_, rfl, rfl, ?_, ?_, ?_⟩
    · intro read hread
      cases mem_singleton.mp hread
      refine ⟨_, rfl, ?_⟩
      intro document hdocument
      exact ⟨hdocument, rfl⟩
    · intro document hdocument
      exact ⟨hdocument, rfl⟩
    · rintro ⟨hresolved, -⟩
      cases hresolved
  obtain ⟨finished, hrun, hstale, hundisturbed⟩ := hfinished
  have hmem : finished ∈ (DocumentRuntime.run plainHost {} restoredMeanwhile).finished := by
    rw [hrun]
    exact mem_singleton_self _
  exact ⟨finished, hmem, hstale,
    run_truthful plainHost restoredMeanwhile finished hmem hundisturbed⟩

/-- Another task is resolved while the document of the first one is read, which has not changed. -/
def resolvedMeanwhile : List (DocumentRuntime.Event × String) :=
  [(.resolveTask "first" [documentOf "a.md" "one"] false, "t1"), (.validateCurrentContract, "t2"),
    (.resolveTask "second" [documentOf "b.md" "two"] false, "t3"),
    (.readFinished 0 (some "one"), "t4")]

/-- The contract of the second task is stale then. -/
theorem resolvedMeanwhile_not_truthful :
    ¬∀ (host : Host) (events : List (DocumentRuntime.Event × String)),
      ∀ finished ∈ (DocumentRuntime.run host {} events).finished, finished.Truthful host := by
  intro h
  have hfinished : ∃ finished, (DocumentRuntime.run plainHost {} resolvedMeanwhile).finished =
      [finished] ∧ finished.ResolvedMeanwhile ∧ finished.current.contract.status = .stale :=
    ⟨_, rfl, ⟨rfl, by decide⟩, rfl⟩
  obtain ⟨finished, hrun, hmeanwhile, hstale⟩ := hfinished
  have htruthful := h plainHost resolvedMeanwhile finished (by
    rw [hrun]
    exact mem_singleton_self _)
  exact htruthful.resolved hmeanwhile hstale

end BeauPi.Documents
