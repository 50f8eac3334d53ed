import BeauPi.Machine.OrderedMap
import BeauPi.Llm.Types

/-!
# The web budget

`SearchBudgetManager` counts, for every scope, the queries, fetches, provider attempts and
characters that were used, and remembers the content that was handed out.

* `SearchBudgetManager` — the states of the scopes.
* `SearchBudgetManager.synchronize` — what the session entries say was used.
* `state_use`, `state_markContentHash` — what an operation changes.
* `synchronize_kept` — **a session that only grows takes nothing back**.
-/

namespace BeauPi.Search

open Machine

/-! ## Limits and usage -/

/-- `SearchBudgetLimits`, the fields that count. -/
structure SearchBudgetLimits where
  maxResultsPerSearch : Nat
  maxQueriesPerTask : Nat
  maxFetchesPerTask : Nat
  maxProviderAttemptsPerTask : Nat
  maxInputCharactersPerTask : Nat
  deriving DecidableEq, Repr

/-- `SearchBudgetUsage` -/
structure SearchBudgetUsage where
  queries : Nat
  fetches : Nat
  providerAttempts : Nat
  inputCharacters : Nat
  deriving DecidableEq, Repr

/-- What a budget was exhausted of. -/
inductive BudgetKind
  | results
  | queries
  | fetches
  | providerAttempts
  | inputCharacters
  deriving DecidableEq, Repr

/-- `SearchBudgetSnapshot` -/
structure SearchBudgetSnapshot where
  limits : SearchBudgetLimits
  used : SearchBudgetUsage
  remaining : SearchBudgetUsage
  exhausted : Option BudgetKind
  deriving DecidableEq, Repr

/-- What `getSearchRuntimeToolDetails` finds in a tool result: the usage, and the content hash of a
fetch. -/
structure SearchRuntimeToolDetails where
  used : SearchBudgetUsage
  fetchedHash : Option String
  deriving DecidableEq, Repr

/-- A session entry: its id and the details of a tool result of a web tool. -/
structure SessionEntry where
  id : String
  details : Option SearchRuntimeToolDetails
  deriving DecidableEq, Repr

/-! ## The manager -/

/-- `MutableSearchBudgetState` -/
structure MutableSearchBudgetState where
  used : SearchBudgetUsage
  contentHashes : List String
  branchSignature : Option String
  deriving DecidableEq, Repr

/-- `emptyState` -/
def emptyState : MutableSearchBudgetState := ⟨⟨0, 0, 0, 0⟩, [], none⟩

/-- `branchSignature` -/
def branchSignature (entries : List SessionEntry) : String :=
  Llm.join "\x00" (entries.map (·.id))

/-- The greater of two usages, by each count. -/
def SearchBudgetUsage.max (a b : SearchBudgetUsage) : SearchBudgetUsage where
  queries := Nat.max a.queries b.queries
  fetches := Nat.max a.fetches b.fetches
  providerAttempts := Nat.max a.providerAttempts b.providerAttempts
  inputCharacters := Nat.max a.inputCharacters b.inputCharacters

/-- One turn of the loop over the entries. -/
def restoreEntry (restored : MutableSearchBudgetState) (entry : SessionEntry) :
    MutableSearchBudgetState :=
  match entry.details with
  | none => restored
  | some details =>
    { restored with
      used := restored.used.max details.used
      contentHashes := restored.contentHashes ++ details.fetchedHash.toList }

/-- `branchExtended`; without a signature the text before the separator is empty. -/
def branchExtended (current : MutableSearchBudgetState) (signature : String) : Bool :=
  current.branchSignature = some "" ||
    Js.startsWith (current.branchSignature.getD "" ++ "\x00").toList signature.toList

/-- `SearchBudgetManager` -/
abbrev SearchBudgetManager := OrderedMap String MutableSearchBudgetState

namespace SearchBudgetManager

/-- `state`; a scope that was only read keeps the empty state it would be given. -/
def state (m : SearchBudgetManager) (scopeId : String) : MutableSearchBudgetState :=
  (m.get? scopeId).getD emptyState

/-- `synchronize` -/
def synchronize (m : SearchBudgetManager) (scopeId : String) (entries : List SessionEntry) :
    SearchBudgetManager :=
  let signature := branchSignature entries
  let current := m.get? scopeId
  if current.bind (·.branchSignature) = some signature then m
  else
    let restored := entries.foldl restoreEntry emptyState
    let restored := match current with
      | none => restored
      | some current =>
        if branchExtended current signature then
          { restored with
            used := restored.used.max current.used
            contentHashes := restored.contentHashes ++ current.contentHashes }
        else restored
    m.set scopeId { restored with branchSignature := some signature }

/-- `reserveQuery`, `reserveFetch` and `reserveProviderAttempt` when the limit is not reached: one
more of a kind. -/
def use (m : SearchBudgetManager) (scopeId : String)
    (add : SearchBudgetUsage → SearchBudgetUsage) : SearchBudgetManager :=
  m.set scopeId { m.state scopeId with used := add (m.state scopeId).used }

/-- `reserveQuery` -/
def reserveQuery (m : SearchBudgetManager) (scopeId : String) (limits : SearchBudgetLimits) :
    Option SearchBudgetManager :=
  if (m.state scopeId).used.queries ≥ limits.maxQueriesPerTask then none
  else some (m.use scopeId fun used => { used with queries := used.queries + 1 })

/-- `reserveFetch` -/
def reserveFetch (m : SearchBudgetManager) (scopeId : String) (limits : SearchBudgetLimits) :
    Option SearchBudgetManager :=
  if (m.state scopeId).used.fetches ≥ limits.maxFetchesPerTask then none
  else some (m.use scopeId fun used => { used with fetches := used.fetches + 1 })

/-- `reserveProviderAttempt` -/
def reserveProviderAttempt (m : SearchBudgetManager) (scopeId : String)
    (limits : SearchBudgetLimits) : Option SearchBudgetManager :=
  if (m.state scopeId).used.providerAttempts ≥ limits.maxProviderAttemptsPerTask then none
  else some (m.use scopeId fun used => { used with providerAttempts := used.providerAttempts + 1 })

/-- `remainingCharacters` -/
def remainingCharacters (m : SearchBudgetManager) (scopeId : String)
    (limits : SearchBudgetLimits) : Nat :=
  limits.maxInputCharactersPerTask - (m.state scopeId).used.inputCharacters

/-- `consumeCharacters` -/
def consumeCharacters (m : SearchBudgetManager) (scopeId : String) (limits : SearchBudgetLimits)
    (characters : Nat) : SearchBudgetManager :=
  let consumed := min (m.remainingCharacters scopeId limits) characters
  m.use scopeId fun used => { used with inputCharacters := used.inputCharacters + consumed }

/-- `hasContentHash` -/
def hasContentHash (m : SearchBudgetManager) (scopeId contentHash : String) : Bool :=
  (m.state scopeId).contentHashes.contains contentHash

/-- `markContentHash` -/
def markContentHash (m : SearchBudgetManager) (scopeId contentHash : String) :
    SearchBudgetManager :=
  let state := m.state scopeId
  m.set scopeId { state with contentHashes := state.contentHashes ++ [contentHash] }

/-- `snapshot` -/
def snapshot (m : SearchBudgetManager) (scopeId : String) (limits : SearchBudgetLimits)
    (exhausted : Option BudgetKind) : SearchBudgetSnapshot :=
  let used := (m.state scopeId).used
  { limits := limits
    used := used
    remaining :=
      { queries := limits.maxQueriesPerTask - used.queries
        fetches := limits.maxFetchesPerTask - used.fetches
        providerAttempts := limits.maxProviderAttemptsPerTask - used.providerAttempts
        inputCharacters := limits.maxInputCharactersPerTask - used.inputCharacters }
    exhausted := exhausted }

/-! ## What an operation changes -/

variable {m : SearchBudgetManager} {scopeId other : String} {limits : SearchBudgetLimits}

theorem state_set (m : SearchBudgetManager) (scopeId other : String)
    (st : MutableSearchBudgetState) :
    state (m.set scopeId st) other = if other = scopeId then st else m.state other := by
  rw [state, OrderedMap.get?_set]
  split
  · rfl
  · rfl

theorem state_use (m : SearchBudgetManager) (scopeId other : String)
    (add : SearchBudgetUsage → SearchBudgetUsage) :
    (m.use scopeId add).state other =
      if other = scopeId then { m.state other with used := add (m.state other).used }
      else m.state other := by
  rw [use, state_set]
  split
  · next h => rw [h]
  · rfl

theorem state_markContentHash (m : SearchBudgetManager) (scopeId other contentHash : String) :
    (m.markContentHash scopeId contentHash).state other =
      if other = scopeId then
        { m.state other with contentHashes := (m.state other).contentHashes ++ [contentHash] }
      else m.state other := by
  rw [markContentHash, state_set]
  split
  · next h => rw [h]
  · rfl

/-! ## Synchronization -/

/-- Nothing that a state counted or remembered is lost. -/
structure Kept (old new : MutableSearchBudgetState) : Prop where
  queries : old.used.queries ≤ new.used.queries
  fetches : old.used.fetches ≤ new.used.fetches
  providerAttempts : old.used.providerAttempts ≤ new.used.providerAttempts
  inputCharacters : old.used.inputCharacters ≤ new.used.inputCharacters
  contentHashes : ∀ contentHash ∈ old.contentHashes, contentHash ∈ new.contentHashes

theorem kept_refl (st : MutableSearchBudgetState) : Kept st st :=
  ⟨le_rfl, le_rfl, le_rfl, le_rfl, fun _ h => h⟩

theorem kept_emptyState (st : MutableSearchBudgetState) : Kept emptyState st :=
  ⟨Nat.zero_le _, Nat.zero_le _, Nat.zero_le _, Nat.zero_le _, by simp [emptyState]⟩

/-- The signature of a branch that has grown extends the old one. -/
theorem branchExtended_of_extends {old entries : List SessionEntry}
    {current : MutableSearchBudgetState} (hpre : old <+: entries)
    (hsignature : current.branchSignature = some (branchSignature old))
    (hne : branchSignature old ≠ branchSignature entries) :
    branchExtended current (branchSignature entries) = true := by
  obtain ⟨more, rfl⟩ := hpre
  rw [branchExtended, hsignature, Bool.or_eq_true]
  rcases eq_or_ne old [] with rfl | hold
  · exact .inl (by simp [branchSignature, Llm.join])
  · have hmore : more ≠ [] := by
      rintro rfl
      rw [List.append_nil] at hne
      exact hne rfl
    right
    have hjoin : branchSignature (old ++ more) =
        branchSignature old ++ "\x00" ++ branchSignature more := by
      rw [branchSignature, List.map_append, Llm.join,
        String.intercalate_append_of_ne_nil (by simpa using hold) (by simpa using hmore)]
      rfl
    rw [hjoin, Option.getD_some, Js.startsWith, List.isPrefixOf_iff_prefix]
    exact ⟨(branchSignature more).toList, String.toList_append.symm⟩

/-- **A session that only grows takes nothing back.** -/
theorem synchronize_kept {entries : List SessionEntry}
    (h : ∀ st, m.get? scopeId = some st →
      ∃ old, st.branchSignature = some (branchSignature old) ∧ old <+: entries) (other : String) :
    Kept (m.state other) ((m.synchronize scopeId entries).state other) := by
  rw [synchronize]
  dsimp only
  split
  · exact kept_refl _
  · next hnew =>
    rw [state_set]
    split
    · next heq =>
      subst heq
      rw [state]
      cases hcurrent : m.get? other with
      | none => exact kept_emptyState _
      | some current =>
        obtain ⟨old, hsignature, hpre⟩ := h current hcurrent
        have hne : branchSignature old ≠ branchSignature entries := by
          intro heq
          rw [hcurrent, Option.bind_some, hsignature, heq] at hnew
          exact hnew rfl
        simp only [branchExtended_of_extends hpre hsignature hne, if_true, Option.getD_some]
        refine ⟨Nat.le_max_right _ _, Nat.le_max_right _ _, Nat.le_max_right _ _,
          Nat.le_max_right _ _, fun contentHash hmem => ?_⟩
        exact List.mem_append_right _ hmem
    · exact kept_refl _

/-- After a synchronization the signature is the one of the entries. -/
theorem synchronize_signature (m : SearchBudgetManager) (scopeId : String)
    (entries : List SessionEntry) (other : String) (st : MutableSearchBudgetState)
    (h : (m.synchronize scopeId entries).get? other = some st) :
    if other = scopeId then st.branchSignature = some (branchSignature entries)
    else m.get? other = some st := by
  rw [synchronize] at h
  dsimp only at h
  split at h
  · next hsame =>
    split
    · next heq =>
      subst heq
      rw [h, Option.bind_some] at hsame
      exact hsame
    · exact h
  · rw [OrderedMap.get?_set] at h
    split
    · next heq =>
      rw [if_pos heq] at h
      rw [← Option.some.inj h]
    · next hne =>
      rw [if_neg hne] at h
      exact h

end SearchBudgetManager
end BeauPi.Search
