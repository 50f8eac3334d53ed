import BeauPi.Machine.OrderedMap
import BeauPi.Search.Runtime
import Mathlib.Logic.Relation

/-!
# The cap of the web budget

What the calls of a scope get is within its limits, as long as no other call takes from the budget
while a full content is written to a file.

* `Charge` — everything that a part of a call does to the budget.
* `step_charged` — every step is a sequence of charges.
* `Accounted.charge` — a charge keeps the account.
* `run_capped` — **what is let through and handed back is within the limits**.
-/

namespace BeauPi.Search

open Machine List SearchRuntime SearchBudgetManager LedgerEntry
open Option (map_eq_some_iff some.inj)
open SearchRuntime (initial step)

variable {limits : SearchBudgetLimits} {scopeId : String} {context : CallContext} {host : Host}
  {s t : SearchRuntime} {i : Nat}

/-! ## The cap -/

/-- Usages are compared by each count. -/
structure SearchBudgetUsage.Le (a b : SearchBudgetUsage) : Prop where
  queries : a.queries ≤ b.queries
  fetches : a.fetches ≤ b.fetches
  providerAttempts : a.providerAttempts ≤ b.providerAttempts
  inputCharacters : a.inputCharacters ≤ b.inputCharacters

instance : LE SearchBudgetUsage := ⟨SearchBudgetUsage.Le⟩

instance : Add SearchBudgetUsage where
  add a b := ⟨a.queries + b.queries, a.fetches + b.fetches, a.providerAttempts + b.providerAttempts,
    a.inputCharacters + b.inputCharacters⟩

/-- No usage. -/
def noUsage : SearchBudgetUsage := ⟨0, 0, 0, 0⟩

/-- The usage that the limits allow. -/
def SearchBudgetLimits.allowed (limits : SearchBudgetLimits) : SearchBudgetUsage where
  queries := limits.maxQueriesPerTask
  fetches := limits.maxFetchesPerTask
  providerAttempts := limits.maxProviderAttemptsPerTask
  inputCharacters := limits.maxInputCharactersPerTask

namespace LedgerEntry

/-- The scope that something was given in. -/
def scope : LedgerEntry → String
  | query scopeId => scopeId
  | fetch scopeId => scopeId
  | providerAttempt scopeId => scopeId
  | results scopeId _ => scopeId
  | content scopeId _ _ => scopeId

/-- What an entry takes: one of a kind that was let through, or the characters handed back. -/
def cost : LedgerEntry → SearchBudgetUsage
  | query _ => ⟨1, 0, 0, 0⟩
  | fetch _ => ⟨0, 1, 0, 0⟩
  | providerAttempt _ => ⟨0, 0, 1, 0⟩
  | results _ given => ⟨0, 0, 0, (given.map resultCharacterCost).sum⟩
  | content _ _ text => ⟨0, 0, 0, text.length⟩

/-- What an entry takes in a scope. -/
def usage (scopeId : String) (entry : LedgerEntry) : SearchBudgetUsage :=
  if entry.scope = scopeId then entry.cost else noUsage

/-- The hash of the content that was handed back. -/
def hash? : LedgerEntry → Option String
  | content _ contentHash _ => some contentHash
  | _ => none

/-- The hash of the content that an entry handed back in a scope. -/
def contentHash? (scopeId : String) (entry : LedgerEntry) : Option String :=
  if entry.scope = scopeId then entry.hash? else none

end LedgerEntry

/-- All that was let through and handed back in a scope. -/
def total (scopeId : String) (ledger : List LedgerEntry) : SearchBudgetUsage :=
  ledger.foldr (fun entry used => entry.usage scopeId + used) noUsage

/-- The hashes of the contents that were handed back in a scope. -/
def handedBack (scopeId : String) (ledger : List LedgerEntry) : List String :=
  ledger.filterMap (·.contentHash? scopeId)

/-- What was given in a scope is within the limits, and no content was given twice. -/
structure Capped (limits : SearchBudgetLimits) (scopeId : String) (ledger : List LedgerEntry) :
    Prop where
  usage : total scopeId ledger ≤ limits.allowed
  bodies : (handedBack scopeId ledger).Nodup

/-! ## Results that fit -/

theorem fitFrom_total (remaining characters : Nat) (results : List SearchResult) :
    (fitFrom remaining characters results).2.1 =
      characters + ((fitFrom remaining characters results).1.map resultCharacterCost).sum := by
  induction results generalizing characters with
  | nil => rfl
  | cons result results ih =>
    rw [fitFrom]
    dsimp only
    split_ifs with hfits hbudget hsnippet
    · rw [ih, map_cons, sum_cons]
      omega
    · simp
    · simp
    · exact (Nat.add_zero _).symm

variable {characters : Nat}

theorem fitFrom_le {remaining : Nat} (results : List SearchResult) (h : characters ≤ remaining) :
    (fitFrom remaining characters results).2.1 ≤ remaining := by
  induction results generalizing characters with
  | nil => exact h
  | cons result results ih =>
    rw [fitFrom]
    dsimp only
    split_ifs with hfits hbudget hsnippet
    · exact ih hfits
    · -- the shortened snippet takes what is left, with the ellipsis
      simp only [resultCharacterCost, length_append, length_take,
        length_singleton]
      omega
    · exfalso
      simp only [resultCharacterCost] at hfits
      omega
    · exact h

/-- The results that fit take the characters that are counted for them. -/
theorem fitSearchResults_spec (results : List SearchResult) (remaining : Nat) :
    ((fitSearchResults results remaining).1.map resultCharacterCost).sum =
        (fitSearchResults results remaining).2.1 ∧
      (fitSearchResults results remaining).2.1 ≤ remaining := by
  have htotal := fitFrom_total remaining 0 results
  have hle := fitFrom_le results (Nat.zero_le remaining)
  rw [Nat.zero_add] at htotal
  simp only [fitSearchResults]
  rw [Nat.min_eq_left hle]
  exact ⟨htotal.symm, hle⟩

/-! ## Charges -/

/-- The part of the runtime that the budget is about. -/
structure Account where
  budget : SearchBudgetManager
  branches : String → List SessionEntry
  ledger : List LedgerEntry

/-- The budget, the branches and the ledger of a runtime. -/
def SearchRuntime.account (s : SearchRuntime) : Account := ⟨s.budget, s.branches, s.ledger⟩

/-- The budget of a scope is new, or it was made from the session entries. -/
def Synchronizable (budget : SearchBudgetManager) (scopeId : String) : Prop :=
  ∀ st, budget.get? scopeId = some st → st.branchSignature ≠ none

/-- What a part of a call does to the budget. -/
inductive Charge (limits : SearchBudgetLimits) : Account → Account → Prop
  | append (a : Account) (scopeId : String) (entry : SessionEntry) : Charge limits a
      { a with branches := fun other =>
          if other = scopeId then a.branches scopeId ++ [entry] else a.branches other }
  | synchronize (a : Account) (scopeId : String) (h : Synchronizable a.budget scopeId) :
      Charge limits a { a with budget := a.budget.synchronize scopeId (a.branches scopeId) }
  | query (a : Account) (scopeId : String) (budget : SearchBudgetManager)
      (h : a.budget.reserveQuery scopeId limits = some budget) :
      Charge limits a { a with budget := budget, ledger := a.ledger ++ [.query scopeId] }
  | fetch (a : Account) (scopeId : String) (budget : SearchBudgetManager)
      (h : a.budget.reserveFetch scopeId limits = some budget) :
      Charge limits a { a with budget := budget, ledger := a.ledger ++ [.fetch scopeId] }
  | providerAttempt (a : Account) (scopeId : String) (budget : SearchBudgetManager)
      (h : a.budget.reserveProviderAttempt scopeId limits = some budget) :
      Charge limits a { a with budget := budget, ledger := a.ledger ++ [.providerAttempt scopeId] }
  | results (a : Account) (scopeId : String) (results : List SearchResult) (characters : Nat)
      (hsum : (results.map resultCharacterCost).sum = characters)
      (hle : characters ≤ a.budget.remainingCharacters scopeId limits) :
      Charge limits a
        { a with
          budget := a.budget.consumeCharacters scopeId limits characters
          ledger := a.ledger ++ [.results scopeId results] }
  | content (a : Account) (scopeId contentHash : String) (content : Text)
      (hle : content.length ≤ a.budget.remainingCharacters scopeId limits)
      (hnew : a.budget.hasContentHash scopeId contentHash = false) :
      Charge limits a
        { a with
          budget := (a.budget.consumeCharacters scopeId limits content.length).markContentHash
            scopeId contentHash
          ledger := a.ledger ++ [.content scopeId contentHash content] }

/-- Several charges. -/
abbrev Charges (limits : SearchBudgetLimits) : Account → Account → Prop :=
  Relation.ReflTransGen (Charge limits)

/-! ## The account -/

/-- What was given is counted and remembered, and every signature is that of an earlier branch. -/
structure Accounted (limits : SearchBudgetLimits) (a : Account) (scopeId : String) : Prop where
  used : total scopeId a.ledger ≤ (a.budget.state scopeId).used
  bodies : ∀ contentHash ∈ handedBack scopeId a.ledger,
    contentHash ∈ (a.budget.state scopeId).contentHashes
  capped : Capped limits scopeId a.ledger
  signature : ∀ st signature, a.budget.get? scopeId = some st →
    st.branchSignature = some signature →
      ∃ old, signature = branchSignature old ∧ old <+: a.branches scopeId

variable {a b : Account} {u v w : SearchBudgetUsage} {ledger : List LedgerEntry}
  {entry : LedgerEntry}

theorem usage_le_trans (h : u ≤ v) (h' : v ≤ w) : u ≤ w :=
  ⟨h.queries.trans h'.queries, h.fetches.trans h'.fetches,
    h.providerAttempts.trans h'.providerAttempts, h.inputCharacters.trans h'.inputCharacters⟩

theorem usage_add_le_add (h : u ≤ v) (w : SearchBudgetUsage) : u + w ≤ v + w :=
  ⟨Nat.add_le_add_right h.queries _, Nat.add_le_add_right h.fetches _,
    Nat.add_le_add_right h.providerAttempts _, Nat.add_le_add_right h.inputCharacters _⟩

theorem usage_add_assoc (u v w : SearchBudgetUsage) : u + v + w = u + (v + w) := by
  show SearchBudgetUsage.mk _ _ _ _ = SearchBudgetUsage.mk _ _ _ _
  congr 1 <;> exact Nat.add_assoc _ _ _

theorem noUsage_add (u : SearchBudgetUsage) : noUsage + u = u := by
  show SearchBudgetUsage.mk _ _ _ _ = _
  simp [noUsage]

theorem add_noUsage (u : SearchBudgetUsage) : u + noUsage = u := rfl

theorem noUsage_le (u : SearchBudgetUsage) : noUsage ≤ u :=
  ⟨Nat.zero_le _, Nat.zero_le _, Nat.zero_le _, Nat.zero_le _⟩

theorem total_concat (scopeId : String) (ledger : List LedgerEntry) (entry : LedgerEntry) :
    total scopeId (ledger ++ [entry]) = total scopeId ledger + entry.usage scopeId := by
  induction ledger with
  | nil => exact (noUsage_add _).symm
  | cons first ledger ih =>
    show first.usage scopeId + total scopeId (ledger ++ [entry]) = _
    rw [ih, ← usage_add_assoc]
    rfl

theorem handedBack_concat (scopeId : String) (ledger : List LedgerEntry) (entry : LedgerEntry) :
    handedBack scopeId (ledger ++ [entry]) =
      handedBack scopeId ledger ++ (entry.contentHash? scopeId).toList := by
  rw [handedBack, filterMap_append]
  cases h : entry.contentHash? scopeId <;> simp [handedBack, h]

/-- **An entry that is charged keeps the account**: it is added to what was used, and what it hands
back is remembered and new. -/
theorem Accounted.give (h : Accounted limits a scopeId) (hledger : b.ledger = a.ledger ++ [entry])
    (hbranches : b.branches = a.branches)
    (hused : (a.budget.state scopeId).used + entry.usage scopeId ≤ (b.budget.state scopeId).used)
    (hallowed : total scopeId a.ledger + entry.usage scopeId ≤ limits.allowed)
    (hhashes : ∀ contentHash ∈ (a.budget.state scopeId).contentHashes ++
      (entry.contentHash? scopeId).toList, contentHash ∈ (b.budget.state scopeId).contentHashes)
    (hnew : ∀ contentHash ∈ entry.contentHash? scopeId,
      contentHash ∉ (a.budget.state scopeId).contentHashes)
    (hsignature : ∀ st signature, b.budget.get? scopeId = some st →
      st.branchSignature = some signature →
        ∃ st, a.budget.get? scopeId = some st ∧ st.branchSignature = some signature) :
    Accounted limits b scopeId := by
  refine ⟨?_, ?_, ⟨?_, ?_⟩, ?_⟩
  · rw [hledger, total_concat]
    exact usage_le_trans (usage_add_le_add h.used _) hused
  · rw [hledger, handedBack_concat]
    intro contentHash hmem
    refine hhashes contentHash ?_
    rcases mem_append.1 hmem with hold | hlast
    · exact mem_append_left _ (h.bodies contentHash hold)
    · exact mem_append_right _ hlast
  · rw [hledger, total_concat]
    exact hallowed
  · rw [hledger, handedBack_concat, nodup_append]
    refine ⟨h.capped.bodies, ?_, fun x hx y hy => ?_⟩
    · cases entry.contentHash? scopeId <;> simp
    · rintro rfl
      exact hnew x (Option.mem_toList.1 hy) (h.bodies x hx)
  · rw [hbranches]
    intro st signature hst hsig
    obtain ⟨st', hst', hsig'⟩ := hsignature st signature hst hsig
    exact h.signature st' signature hst' hsig'

/-! ## Charges keep the account -/

variable {m : SearchBudgetManager}

theorem set_signature {m' : SearchBudgetManager} {state : MutableSearchBudgetState}
    {other signature : String} (hm : m' = OrderedMap.set m scopeId state)
    (hsame : state.branchSignature = (m.state scopeId).branchSignature)
    {st : MutableSearchBudgetState} (hst : m'.get? other = some st)
    (hsig : st.branchSignature = some signature) :
    ∃ st, m.get? other = some st ∧ st.branchSignature = some signature := by
  rw [hm, OrderedMap.get?_set] at hst
  split at hst
  · next heq =>
    subst heq
    obtain rfl := some.inj hst
    cases hget : m.get? other with
    | none =>
      rw [hsame, SearchBudgetManager.state, hget] at hsig
      cases hsig
    | some old =>
      rw [hsame, SearchBudgetManager.state, hget] at hsig
      exact ⟨old, rfl, hsig⟩
  · exact ⟨st, hst, hsig⟩

/-- An entry without content, whose cost was added to what was used and fits. -/
theorem Accounted.use (h : ∀ scopeId, Accounted limits a scopeId)
    {add : SearchBudgetUsage → SearchBudgetUsage} (hledger : b.ledger = a.ledger ++ [entry])
    (hbranches : b.branches = a.branches) (hbudget : b.budget = a.budget.use entry.scope add)
    (hadd : ∀ used, add used = used + entry.cost) (hnone : entry.hash? = none)
    (hfits : ∀ used, used ≤ limits.allowed → used ≤ (a.budget.state entry.scope).used →
      used + entry.cost ≤ limits.allowed) (scopeId : String) : Accounted limits b scopeId := by
  have hhash : entry.contentHash? scopeId = none := by
    rw [LedgerEntry.contentHash?, hnone, ite_self]
  refine (h scopeId).give hledger hbranches ?_ ?_ ?_ (by simp [hhash]) ?_
  · rw [hbudget, state_use, usage]
    by_cases hscope : entry.scope = scopeId
    · rw [if_pos hscope, if_pos hscope.symm, hadd]
      exact ⟨le_rfl, le_rfl, le_rfl, le_rfl⟩
    · rw [if_neg hscope, if_neg (Ne.symm hscope), add_noUsage]
      exact ⟨le_rfl, le_rfl, le_rfl, le_rfl⟩
  · rw [usage]
    split
    · next hscope => exact hfits _ (h scopeId).capped.usage (hscope ▸ (h scopeId).used)
    · rw [add_noUsage]
      exact (h scopeId).capped.usage
  · rw [hhash, hbudget, state_use]
    split <;> simp
  · rw [hbudget]
    exact fun st signature => set_signature (by rfl) (by rfl)

theorem consumeCharacters_of_le (h : characters ≤ m.remainingCharacters scopeId limits) :
    m.consumeCharacters scopeId limits characters = m.use scopeId fun used =>
      { used with inputCharacters := used.inputCharacters + characters } := by
  rw [consumeCharacters, Nat.min_eq_right h]

/-- Characters that remain are allowed. -/
theorem allowed_of_remaining (h : characters ≤ m.remainingCharacters scopeId limits)
    {used : SearchBudgetUsage} (hallowed : used ≤ limits.allowed)
    (hused : used ≤ (m.state scopeId).used) :
    used + ⟨0, 0, 0, characters⟩ ≤ limits.allowed := by
  refine ⟨hallowed.queries, hallowed.fetches, hallowed.providerAttempts, ?_⟩
  have hlimit := hallowed.inputCharacters
  have hcount := hused.inputCharacters
  show used.inputCharacters + characters ≤ limits.maxInputCharactersPerTask
  change used.inputCharacters ≤ limits.maxInputCharactersPerTask at hlimit
  rw [remainingCharacters] at h
  omega

theorem Accounted.charge (h : ∀ scopeId, Accounted limits a scopeId) (hcharge : Charge limits a b) :
    ∀ scopeId, Accounted limits b scopeId := by
  cases hcharge with
  | append scopeId entry =>
    intro other
    refine ⟨(h other).used, (h other).bodies, (h other).capped, fun st signature hst hsig => ?_⟩
    obtain ⟨old, heq, hpre⟩ := (h other).signature st signature hst hsig
    refine ⟨old, heq, hpre.trans ?_⟩
    dsimp only
    split
    · next hother =>
      rw [hother]
      exact prefix_append _ _
    · exact prefix_refl _
  | synchronize scopeId hsync =>
    intro other
    have hold : ∀ st, a.budget.get? scopeId = some st →
        ∃ old, st.branchSignature = some (branchSignature old) ∧ old <+: a.branches scopeId := by
      intro st hst
      obtain ⟨signature, hsig⟩ := Option.ne_none_iff_exists'.1 (hsync st hst)
      obtain ⟨old, rfl, hpre⟩ := (h scopeId).signature st signature hst hsig
      exact ⟨old, hsig, hpre⟩
    have hkept := synchronize_kept hold other
    refine ⟨usage_le_trans (h other).used ?_, fun contentHash hmem => ?_, (h other).capped, ?_⟩
    · exact ⟨hkept.queries, hkept.fetches, hkept.providerAttempts, hkept.inputCharacters⟩
    · exact hkept.contentHashes _ ((h other).bodies contentHash hmem)
    · intro st signature hst hsig
      have hnew := synchronize_signature _ _ _ _ _ hst
      split at hnew
      · next heq =>
        subst heq
        rw [hnew] at hsig
        exact ⟨a.branches other, (some.inj hsig).symm, prefix_refl _⟩
      · exact (h other).signature st signature hnew hsig
  | query scopeId budget hreserve =>
    rw [reserveQuery] at hreserve
    split at hreserve
    · cases hreserve
    · next hlimit =>
      refine Accounted.use h rfl rfl (some.inj hreserve).symm (fun used => rfl) rfl ?_
      intro used hallowed hused
      refine ⟨?_, hallowed.fetches, hallowed.providerAttempts, hallowed.inputCharacters⟩
      exact (Nat.succ_le_succ hused.queries).trans (not_le.1 hlimit)
  | fetch scopeId budget hreserve =>
    rw [reserveFetch] at hreserve
    split at hreserve
    · cases hreserve
    · next hlimit =>
      refine Accounted.use h rfl rfl (some.inj hreserve).symm (fun used => rfl) rfl ?_
      intro used hallowed hused
      refine ⟨hallowed.queries, ?_, hallowed.providerAttempts, hallowed.inputCharacters⟩
      exact (Nat.succ_le_succ hused.fetches).trans (not_le.1 hlimit)
  | providerAttempt scopeId budget hreserve =>
    rw [reserveProviderAttempt] at hreserve
    split at hreserve
    · cases hreserve
    · next hlimit =>
      refine Accounted.use h rfl rfl (some.inj hreserve).symm (fun used => rfl) rfl ?_
      intro used hallowed hused
      refine ⟨hallowed.queries, hallowed.fetches, ?_, hallowed.inputCharacters⟩
      exact (Nat.succ_le_succ hused.providerAttempts).trans (not_le.1 hlimit)
  | results scopeId results characters hsum hle =>
    subst hsum
    refine Accounted.use h rfl rfl (consumeCharacters_of_le hle) (fun used => rfl) rfl ?_
    exact fun used => allowed_of_remaining hle
  | content scopeId contentHash content hle hnew =>
    intro other
    have hstate : ∀ m : SearchBudgetManager, ((m.use scopeId fun used =>
        { used with inputCharacters := used.inputCharacters + content.length }).markContentHash
          scopeId contentHash).state other = if other = scopeId then
            ⟨(m.state other).used + ⟨0, 0, 0, content.length⟩,
              (m.state other).contentHashes ++ [contentHash], (m.state other).branchSignature⟩
          else m.state other := by
      intro m
      rw [state_markContentHash, state_use]
      split
      · rfl
      · rfl
    have hledger : a.ledger ++ [.content scopeId contentHash content] = a.ledger ++
        [LedgerEntry.content scopeId contentHash content] := rfl
    refine (h other).give hledger rfl ?_ ?_ ?_ ?_ ?_
    · dsimp only
      rw [consumeCharacters_of_le hle, hstate, usage]
      by_cases hscope : scopeId = other
      · rw [if_pos hscope.symm, scope, if_pos hscope]
        exact ⟨le_rfl, le_rfl, le_rfl, le_rfl⟩
      · rw [if_neg (Ne.symm hscope), scope, if_neg hscope, add_noUsage]
        exact ⟨le_rfl, le_rfl, le_rfl, le_rfl⟩
    · rw [usage, scope]
      split
      · next hscope =>
        subst hscope
        exact allowed_of_remaining hle (h scopeId).capped.usage (h scopeId).used
      · rw [add_noUsage]
        exact (h other).capped.usage
    · dsimp only
      rw [consumeCharacters_of_le hle, hstate, LedgerEntry.contentHash?, scope]
      by_cases hscope : scopeId = other
      · rw [if_pos hscope.symm, if_pos hscope]
        exact fun _ hmem => hmem
      · rw [if_neg (Ne.symm hscope), if_neg hscope]
        simp
    · rw [LedgerEntry.contentHash?, scope]
      split
      · next hscope =>
        subst hscope
        rintro _ ⟨⟩ hmem
        rw [hasContentHash, contains_iff_mem.2 hmem] at hnew
        cases hnew
      · rintro _ ⟨⟩
    · intro st signature hst hsig
      obtain ⟨st', hst', hsig'⟩ := set_signature (by rfl) (by rfl) hst hsig
      exact set_signature (consumeCharacters_of_le hle) rfl hst' hsig'

/-! ## Every call has the limits -/

namespace Calls

variable {ι α ω ρ : Type}

/-- All calls have the limits. -/
def Limited (limits : SearchBudgetLimits) (c : Calls ι α ω ρ) : Prop :=
  ∀ call ∈ c.calls, call.context.config.budget = limits

variable {c : Calls ι α ω ρ}

theorem Limited.modify (h : c.Limited limits) (i : Nat) {f : Call ι α ω ρ → Call ι α ω ρ}
    {pending : OrderedMap String Nat} (hf : ∀ call, (f call).context.config = call.context.config) :
    Limited limits ⟨c.calls.modify i f, pending⟩ := by
  intro call hmem
  obtain ⟨j, hj⟩ := mem_iff_getElem?.1 hmem
  obtain ⟨old, hold, rfl⟩ := getElem?_modify_eq.1 hj
  have hlimits := h old (mem_iff_getElem?.2 ⟨j, hold⟩)
  split
  · rw [hf]
    exact hlimits
  · exact hlimits

theorem Limited.setPhase (h : c.Limited limits) (i : Nat) (phase : Phase α ω ρ) :
    (c.setPhase i phase).Limited limits := h.modify i fun _ => rfl

theorem Limited.begin (h : c.Limited limits) (i : Nat) (key : String)
    (diagnostics : List SearchDiagnostic) : (c.begin i key diagnostics).Limited limits :=
  h.modify i fun _ => rfl

theorem Limited.abort (h : c.Limited limits) (i : Nat) :
    (c.abort i).Limited limits := h.modify i fun _ => rfl

theorem Limited.settle (h : c.Limited limits) (i : Nat) (outcome : Settled α) :
    (c.settle i outcome).Limited limits := h.modify i fun _ => rfl

theorem Limited.add (h : c.Limited limits) (input : ι) (hlimits : context.config.budget = limits)
    (phase : Phase α ω ρ) :
    (c.add input context phase).Limited limits := by
  intro call hmem
  rcases mem_append.1 hmem with hold | hnew
  · exact h call hold
  · rw [mem_singleton.1 hnew]
    exact hlimits

end Calls

/-- What a part of a call does: it charges the budget, and all calls keep the limits. -/
structure Charged (limits : SearchBudgetLimits) (s t : SearchRuntime) : Prop where
  charges : Charges limits s.account t.account
  searches : s.searches.Limited limits → t.searches.Limited limits
  fetches : s.fetches.Limited limits → t.fetches.Limited limits

theorem Charged.trans {u : SearchRuntime} (h : Charged limits s t) (h' : Charged limits t u) :
    Charged limits s u :=
  ⟨h.charges.trans h'.charges, h'.searches ∘ h.searches, h'.fetches ∘ h.fetches⟩

/-! ## Every step is a sequence of charges -/

variable (hlimits : context.config.budget = limits)

include hlimits in
theorem finishSearch_charged (s : SearchRuntime)
    (host : Host) (i : Nat) (input : SearchInput) (entry : SearchCacheEntry CachedSearchValue)
    (cacheStatus : SearchCacheStatus) (cacheDiagnostics : List SearchDiagnostic) :
    Charged limits s (s.finishSearch host i input context entry cacheStatus cacheDiagnostics) := by
  subst hlimits
  refine ⟨.single ?_, fun h => h.setPhase _ _, id⟩
  obtain ⟨hsum, hle⟩ := fitSearchResults_spec
    ((host.normalizeAndRankResults entry.value.results (host.normalizeSearchQuery input.query)
      (host.normalizeDomains input.includeDomains)
      (host.normalizeDomains input.excludeDomains)).take
        (requestedResults input context.config))
    (s.budget.remainingCharacters context.budgetScopeId context.config.budget)
  exact .results s.account _ _ _ hsum hle

include hlimits in
theorem requestSearch_charged (s : SearchRuntime)
    (host : Host) (i : Nat) (input : SearchInput) (cacheDiagnostics : List SearchDiagnostic) :
    Charged limits s (s.requestSearch host i input context cacheDiagnostics) := by
  subst hlimits
  rw [requestSearch]
  dsimp only
  split
  · exact ⟨.refl, fun h => h.setPhase _ _, id⟩
  · split
    · exact ⟨.refl, fun h => h.setPhase _ _, id⟩
    · next budget hbudget =>
      exact ⟨.single (.providerAttempt s.account _ budget hbudget), fun h => h.begin _ _ _, id⟩

theorem synchronizeContext_charged (s : SearchRuntime) (hsync : context.withSessionEntries = true →
    Synchronizable s.budget context.budgetScopeId) :
    Charged limits s (s.synchronizeContext context) := by
  rw [synchronizeContext]
  split
  · next hwith => exact ⟨.single (.synchronize s.account _ (hsync hwith)), id, id⟩
  · exact ⟨.refl, id, id⟩

include hlimits in
theorem search_charged (s : SearchRuntime)
    (host : Host) (input : SearchInput) (hsync : context.withSessionEntries = true →
      Synchronizable s.budget context.budgetScopeId) :
    Charged limits s (s.search host input context) := by
  refine (synchronizeContext_charged s hsync).trans ?_
  rw [search]
  generalize s.synchronizeContext context = s
  dsimp only
  split
  · exact ⟨.refl, fun h => h.add _ hlimits _, id⟩
  · split
    · exact ⟨.refl, fun h => h.add _ hlimits _, id⟩
    · next budget hbudget =>
      rw [hlimits] at hbudget
      have hquery : Charge limits s.account
          ⟨budget, s.branches, s.ledger ++ [.query context.budgetScopeId]⟩ :=
        .query s.account _ budget hbudget
      split
      · exact ⟨.single hquery, fun h => h.add _ hlimits _, id⟩
      · split
        · exact ⟨.single hquery, fun h => h.add _ hlimits _, id⟩
        · split
          · exact ⟨.single hquery, fun h => h.add _ hlimits _, id⟩
          · have hadded : Charged limits s
                { s with
                  budget := budget
                  ledger := s.ledger ++ [.query context.budgetScopeId]
                  searches := s.searches.add input context
                    (.readingCache (queryCacheKey host input context.config)) } :=
              ⟨.single hquery, fun h => h.add _ hlimits _, id⟩
            exact hadded.trans (requestSearch_charged hlimits _ _ _ _ _)

include hlimits in
theorem deliverFetch_charged (s : SearchRuntime)
    (i : Nat) (output : FullOutput) (path : Option String)
    (h : output.duplicateContent = false →
      output.truncation.content.length ≤
          s.budget.remainingCharacters context.budgetScopeId limits ∧
        s.budget.hasContentHash context.budgetScopeId output.entry.contentHash = false) :
    Charged limits s (s.deliverFetch i context output path) := by
  subst hlimits
  refine ⟨?_, id, fun h => h.setPhase _ _⟩
  cases hduplicate : output.duplicateContent with
  | true =>
    have haccount : (s.deliverFetch i context output path).account = s.account := by
      simp [deliverFetch, account, hduplicate]
    rw [haccount]
  | false =>
    obtain ⟨hle, hnew⟩ := h hduplicate
    have hcharge := Charge.content s.account _ _ _ hle hnew
    refine .single ?_
    convert hcharge using 1
    simp [deliverFetch, account, hduplicate]

include hlimits in
theorem finishFetch_charged (s : SearchRuntime)
    (i : Nat) (requestedUrl : String) (entry : SearchCacheEntry CachedFetchValue)
    (cacheStatus : SearchCacheStatus) (cacheDiagnostics : List SearchDiagnostic) :
    Charged limits s (s.finishFetch i requestedUrl context entry cacheStatus cacheDiagnostics) := by
  rw [finishFetch]
  dsimp only
  split
  · exact ⟨.refl, id, fun h => h.setPhase _ _⟩
  · refine deliverFetch_charged hlimits s i _ none fun hduplicate => ⟨?_, hduplicate⟩
    rw [← hlimits]
    exact truncateByCharacters_length _ _

theorem requestFetch_charged (s : SearchRuntime) (i : Nat) (requestedUrl : String)
    (cacheDiagnostics : List SearchDiagnostic) :
    Charged limits s (s.requestFetch i requestedUrl cacheDiagnostics) := by
  rw [requestFetch]
  split
  · exact ⟨.refl, id, fun h => h.setPhase _ _⟩
  · exact ⟨.refl, id, fun h => h.begin _ _ _⟩

include hlimits in
theorem fetch_charged (s : SearchRuntime)
    (host : Host) (input : String) (hsync : context.withSessionEntries = true →
      Synchronizable s.budget context.budgetScopeId) :
    Charged limits s (s.fetch host input context) := by
  refine (synchronizeContext_charged s hsync).trans ?_
  rw [SearchRuntime.fetch]
  generalize s.synchronizeContext context = s
  dsimp only
  split
  · exact ⟨.refl, id, fun h => h.add _ hlimits _⟩
  · split
    · exact ⟨.refl, id, fun h => h.add _ hlimits _⟩
    · next budget hbudget =>
      rw [hlimits] at hbudget
      have hfetch : Charge limits s.account
          ⟨budget, s.branches, s.ledger ++ [.fetch context.budgetScopeId]⟩ :=
        .fetch s.account _ budget hbudget
      split
      · exact ⟨.single hfetch, id, fun h => h.add _ hlimits _⟩
      · split
        · exact ⟨.single hfetch, id, fun h => h.add _ hlimits _⟩
        · split
          · exact ⟨.single hfetch, id, fun h => h.add _ hlimits _⟩
          · next requestedUrl _ _ =>
            have hadded : Charged limits s
                { s with
                  budget := budget
                  ledger := s.ledger ++ [.fetch context.budgetScopeId]
                  fetches := s.fetches.add input context (.readingCache requestedUrl) } :=
              ⟨.single hfetch, id, fun h => h.add _ hlimits _⟩
            exact hadded.trans (requestFetch_charged _ _ _ _)

/-- **No other call takes from the budget while a full content is written**: when it has been
written, the content that was cut before still fits, and its hash was not handed back in the
meantime.  All calls have the limits, and a budget that is synchronized with the session was made
from it. -/
def WithinBudget (limits : SearchBudgetLimits) (s : SearchRuntime) : SearchRuntime.Event → Prop
  | .synchronizeBudget scopeId => Synchronizable s.budget scopeId
  | .search _ context | .fetch _ context => context.config.budget = limits ∧
      (context.withSessionEntries = true → Synchronizable s.budget context.budgetScopeId)
  | .fetchWritten i _ => ∀ call output, s.fetches.calls[i]? = some call →
      call.phase = .writing output → output.duplicateContent = false →
        output.truncation.content.length ≤
            s.budget.remainingCharacters call.context.budgetScopeId limits ∧
          s.budget.hasContentHash call.context.budgetScopeId output.entry.contentHash = false
  | _ => True

/-- The output whose full content a call writes. -/
def Phase.written? {α ω ρ : Type} : Phase α ω ρ → Option ω
  | .writing output => some output
  | _ => none

theorem Phase.mem_written? {α ω ρ : Type} {phase : Phase α ω ρ} {output : ω} :
    output ∈ phase.written? ↔ phase = .writing output := by
  cases phase <;> simp [Phase.written?]

instance (budget : SearchBudgetManager) (scopeId : String) :
    Decidable (Synchronizable budget scopeId) :=
  inferInstanceAs (Decidable (∀ st ∈ budget.get? scopeId, st.branchSignature ≠ none))

instance (limits : SearchBudgetLimits) (s : SearchRuntime) :
    (e : SearchRuntime.Event) → Decidable (WithinBudget limits s e)
  | .synchronizeBudget scopeId => inferInstanceAs (Decidable (Synchronizable s.budget scopeId))
  | .search _ context | .fetch _ context =>
    inferInstanceAs (Decidable (context.config.budget = limits ∧
      (context.withSessionEntries = true → Synchronizable s.budget context.budgetScopeId)))
  | .fetchWritten i _ => decidable_of_iff
      (∀ call ∈ s.fetches.calls[i]?, ∀ output ∈ call.phase.written?,
        output.duplicateContent = false →
          output.truncation.content.length ≤
              s.budget.remainingCharacters call.context.budgetScopeId limits ∧
            s.budget.hasContentHash call.context.budgetScopeId output.entry.contentHash = false)
      ⟨fun h call output hcall hphase => h call hcall output (Phase.mem_written?.2 hphase),
        fun h call hcall output hphase => h call output hcall (Phase.mem_written?.1 hphase)⟩
  | .append .. | .searchRead .. | .searchRemoved .. | .searchSettled .. | .searchResumed ..
  | .searchAborted .. | .fetchRead .. | .fetchRemoved .. | .fetchSettled .. | .fetchResumed ..
  | .fetchAborted .. => isTrue trivial

theorem stepSearch_charged {call : Call SearchInput CachedSearchValue Empty SearchExecutionResult}
    (hlimits : call.context.config.budget = limits) (e : SearchRuntime.Event)
    (hstep : s.stepSearch host i call e = some t) : Charged limits s t := by
  have habort : some { s with searches := s.searches.abort i } = some t → Charged limits s t := by
    rintro ⟨⟩
    exact ⟨.refl, fun h => h.abort _, id⟩
  cases e with
  | searchRead j read =>
    rw [stepSearch] at hstep
    split at hstep
    · obtain rfl := some.inj hstep
      cases read with
      | entry entry => exact finishSearch_charged hlimits _ _ _ _ _ _ _
      | malformed => exact ⟨.refl, fun h => h.setPhase _ _, id⟩
      | _ => exact requestSearch_charged hlimits _ _ _ _ _
    · cases hstep
  | searchRemoved j =>
    rw [stepSearch] at hstep
    split at hstep
    · obtain rfl := some.inj hstep
      exact requestSearch_charged hlimits _ _ _ _ _
    · cases hstep
  | searchSettled j outcome =>
    rw [stepSearch] at hstep
    split at hstep
    · split at hstep
      · obtain rfl := some.inj hstep
        exact ⟨.refl, fun h => h.settle _ _, id⟩
      · cases hstep
    · cases hstep
  | searchResumed j =>
    rw [stepSearch] at hstep
    split at hstep
    · obtain ⟨outcome, -, rfl⟩ := map_eq_some_iff.1 hstep
      have hdeleted : ∀ key, Charged limits s { s with searches := s.searches.delete key } :=
        fun key => ⟨.refl, id, id⟩
      cases outcome with
      | ok entry shared => exact (hdeleted _).trans (finishSearch_charged hlimits _ _ _ _ _ _ _)
      | error error => exact (hdeleted _).trans ⟨.refl, fun h => h.setPhase _ _, id⟩
    · obtain ⟨outcome, -, rfl⟩ := map_eq_some_iff.1 hstep
      cases outcome with
      | ok entry shared => exact finishSearch_charged hlimits _ _ _ _ _ _ _
      | error error => exact ⟨.refl, fun h => h.setPhase _ _, id⟩
    · cases hstep
  | _ => exact habort hstep

theorem stepFetch_charged
    {call : Call String CachedFetchValue FullOutput FetchExecutionResult}
    (hcall : s.fetches.calls[i]? = some call) (hlimits : call.context.config.budget = limits)
    (e : SearchRuntime.Event) (hwithin : ∀ path, e = .fetchWritten i path → WithinBudget limits s e)
    (hindex : ∀ j path, e = .fetchWritten j path → j = i)
    (hstep : s.stepFetch i call e = some t) : Charged limits s t := by
  have habort : some { s with fetches := s.fetches.abort i } = some t → Charged limits s t := by
    rintro ⟨⟩
    exact ⟨.refl, id, fun h => h.abort _⟩
  cases e with
  | fetchRead j read =>
    rw [stepFetch] at hstep
    split at hstep
    · obtain rfl := some.inj hstep
      cases read with
      | entry entry => exact finishFetch_charged hlimits _ _ _ _ _ _
      | malformed => exact ⟨.refl, id, fun h => h.setPhase _ _⟩
      | _ => exact requestFetch_charged _ _ _ _
    · cases hstep
  | fetchRemoved j =>
    rw [stepFetch] at hstep
    split at hstep
    · obtain rfl := some.inj hstep
      exact requestFetch_charged _ _ _ _
    · cases hstep
  | fetchSettled j outcome =>
    rw [stepFetch] at hstep
    split at hstep
    · split at hstep
      · obtain rfl := some.inj hstep
        exact ⟨.refl, id, fun h => h.settle _ _⟩
      · cases hstep
    · cases hstep
  | fetchResumed j =>
    rw [stepFetch] at hstep
    split at hstep
    · obtain ⟨outcome, -, rfl⟩ := map_eq_some_iff.1 hstep
      have hdeleted : ∀ key, Charged limits s { s with fetches := s.fetches.delete key } :=
        fun key => ⟨.refl, id, id⟩
      cases outcome with
      | ok entry shared => exact (hdeleted _).trans (finishFetch_charged hlimits _ _ _ _ _ _)
      | error error => exact (hdeleted _).trans ⟨.refl, id, fun h => h.setPhase _ _⟩
    · obtain ⟨outcome, -, rfl⟩ := map_eq_some_iff.1 hstep
      cases outcome with
      | ok entry shared => exact finishFetch_charged hlimits _ _ _ _ _ _
      | error error => exact ⟨.refl, id, fun h => h.setPhase _ _⟩
    · cases hstep
  | fetchWritten j path =>
    rw [stepFetch] at hstep
    split at hstep
    · next output hphase =>
      obtain rfl := some.inj hstep
      obtain rfl := hindex j path rfl
      exact deliverFetch_charged hlimits _ _ _ _ (hwithin path rfl call output hcall hphase)
    · cases hstep
  | _ => exact habort hstep

/-- **Every step is a sequence of charges.** -/
theorem step_charged {e : SearchRuntime.Event} (hwithin : WithinBudget limits s e)
    (hsearches : s.searches.Limited limits) (hfetches : s.fetches.Limited limits)
    (hstep : step host s e = some t) : Charged limits s t := by
  have hsearch : ∀ i, ((s.searches.calls[i]?).bind fun call => s.stepSearch host i call e) =
      some t → Charged limits s t := by
    intro i h
    obtain ⟨call, hcall, hstep⟩ := Option.bind_eq_some_iff.1 h
    exact stepSearch_charged (hsearches call (mem_iff_getElem?.2 ⟨i, hcall⟩)) e hstep
  have hfetch : ∀ i, (∀ j path, e = .fetchWritten j path → j = i) →
      ((s.fetches.calls[i]?).bind fun call => s.stepFetch i call e) = some t →
      Charged limits s t := by
    intro i hindex h
    obtain ⟨call, hcall, hstep⟩ := Option.bind_eq_some_iff.1 h
    exact stepFetch_charged hcall (hfetches call (mem_iff_getElem?.2 ⟨i, hcall⟩)) e
      (fun _ _ => hwithin) hindex hstep
  cases e with
  | append scopeId entry =>
    obtain rfl := some.inj hstep
    exact ⟨.single (.append s.account scopeId entry), id, id⟩
  | synchronizeBudget scopeId =>
    obtain rfl := some.inj hstep
    exact ⟨.single (.synchronize s.account scopeId hwithin), id, id⟩
  | search input context =>
    obtain rfl := some.inj hstep
    exact search_charged hwithin.1 s host input hwithin.2
  | fetch input context =>
    obtain rfl := some.inj hstep
    exact fetch_charged hwithin.1 s host input hwithin.2
  | searchRead i | searchRemoved i | searchSettled i | searchResumed i | searchAborted i =>
    exact hsearch i hstep
  | fetchRead i | fetchRemoved i | fetchSettled i | fetchResumed i | fetchAborted i
  | fetchWritten i => exact hfetch i (by simp) hstep

/-! ## Runs -/

/-- The account of every scope is right and all calls have the limits. -/
structure Balanced (limits : SearchBudgetLimits) (s : SearchRuntime) : Prop where
  accounted : ∀ scopeId, Accounted limits s.account scopeId
  searches : s.searches.Limited limits
  fetches : s.fetches.Limited limits

theorem balanced_initial (limits : SearchBudgetLimits) (branches : String → List SessionEntry) :
    Balanced limits (initial branches) := by
  refine ⟨fun scopeId => ⟨noUsage_le _, by simp [account, initial,
    handedBack], ⟨noUsage_le _, nodup_nil⟩, ?_⟩, ?_, ?_⟩
  · intro st signature hst
    simp [account, initial] at hst
  · exact fun call hmem => by simp [initial] at hmem
  · exact fun call hmem => by simp [initial] at hmem

theorem Balanced.charged (h : Balanced limits s) (hcharged : Charged limits s t) :
    Balanced limits t := by
  refine ⟨?_, hcharged.searches h.searches, hcharged.fetches h.fetches⟩
  have hcharges := hcharged.charges
  generalize t.account = b at hcharges
  induction hcharges with
  | refl => exact h.accounted
  | tail _ hcharge ih => exact Accounted.charge ih hcharge

/-- **The web budget is a hard cap** in every run in which no other call takes from the budget while
a full content is written. -/
theorem SearchRuntime.run_capped (host : Host) (limits : SearchBudgetLimits)
    (branches : String → List SessionEntry) (es : List SearchRuntime.Event) (s : SearchRuntime)
    (hrun : runFrom (SearchRuntime.step host) (SearchRuntime.initial branches) es = some s)
    (hwithin : Along (SearchRuntime.step host) (fun s e _ => WithinBudget limits s e)
      (SearchRuntime.initial branches) es) (scopeId : String) :
    Capped limits scopeId s.ledger := by
  have hbalanced : Balanced limits s :=
    runFrom_invariant (fun s e t h hstep hwithin =>
      h.charged (step_charged hwithin h.searches h.fetches hstep)) es _ s
      (balanced_initial limits branches) hwithin hrun
  exact (hbalanced.accounted scopeId).capped

/-! ## Two fetches of one page -/

/-- The context of a call that an event starts. -/
def SearchRuntime.Event.context? : SearchRuntime.Event → Option CallContext
  | .search _ context => some context
  | .fetch _ context => some context
  | _ => none

/-- Five characters for a task. -/
def fiveCharacters : SearchBudgetLimits := ⟨10, 6, 6, 6, 5⟩

/-- A call of a task with five characters, which passes the session entries. -/
def sessionContext : CallContext :=
  { taskContext with
    withSessionEntries := true
    config := { taskContext.config with budget := fiveCharacters } }

/-- A session in which the task was given one character before. -/
def earlierBranch (scopeId : String) : List SessionEntry :=
  if scopeId = "task" then [⟨"e1", some ⟨⟨0, 1, 0, 1⟩, some "first"⟩⟩] else []

/-- Two fetches and a search share what remains of five characters.  The first page takes two of
them; the second one is cut to two and written to a file, and the search begins meanwhile. -/
def sharedBudget : List SearchRuntime.Event :=
  [.fetch "https://host/a" sessionContext, .fetch "https://host/b" sessionContext,
    .fetchRead 0 (.entry { page [97, 98] with contentHash := "second" }),
    .append "task" ⟨"e2", some ⟨⟨0, 3, 0, 3⟩, some "second"⟩⟩,
    .fetchRead 1 (.entry { page [97, 98, 99, 100] with contentHash := "third" }),
    .search ⟨"query", none, [], []⟩ sessionContext, .fetchWritten 1 "/tmp/b.md",
    .searchSettled 0 (.ok ⟨"results", "query", [⟨[97], [98], [99]⟩]⟩ []), .searchResumed 0]

/-- What the calls of the task were given, and nothing of it is too much. -/
theorem SearchRuntime.run_capped_sharedBudget :
    ∃ s, runFrom (SearchRuntime.step plainHost) (SearchRuntime.initial earlierBranch) sharedBudget =
        some s ∧
      s.ledger = [.fetch "task", .fetch "task", .content "task" "second" [97, 98], .query "task",
        .providerAttempt "task", .content "task" "third" [97, 98], .results "task" []] ∧
      Capped fiveCharacters "task" s.ledger := by
  have hledger : (runFrom (SearchRuntime.step plainHost) (SearchRuntime.initial earlierBranch)
      sharedBudget).map (·.ledger) =
        some [.fetch "task", .fetch "task", .content "task" "second" [97, 98], .query "task",
          .providerAttempt "task", .content "task" "third" [97, 98], .results "task" []] := by
    decide +kernel
  obtain ⟨s, hrun, hgiven⟩ := Option.map_eq_some_iff.1 hledger
  exact ⟨s, hrun, hgiven,
    run_capped plainHost fiveCharacters _ _ s hrun (by decide +kernel) "task"⟩

/-- **Two fetches of a page that is cut both hand back what remained before either of them did.** -/
theorem concurrentFetches_not_capped :
    ¬∀ (host : Host) (limits : SearchBudgetLimits) (branches : String → List SessionEntry)
      (es : List SearchRuntime.Event) (s : SearchRuntime),
      (∀ e ∈ es, ∀ context ∈ e.context?, context.config.budget = limits) →
      runFrom (SearchRuntime.step host) (SearchRuntime.initial branches) es = some s →
      ∀ scopeId, Capped limits scopeId s.ledger := by
  intro h
  have hledger : (runFrom (SearchRuntime.step plainHost) (SearchRuntime.initial fun _ => [])
      [.fetch "https://host/" taskContext, .fetch "https://host/" taskContext,
        .fetchRead 0 (.entry (page [97, 98])), .fetchRead 1 (.entry (page [97, 98])),
        .fetchWritten 0 "/tmp/a.md", .fetchWritten 1 "/tmp/b.md"]).map (·.ledger) =
      some [.fetch "task", .fetch "task", .content "task" "hash" [97],
        .content "task" "hash" [97]] := by decide
  obtain ⟨s, hrun, heq⟩ := Option.map_eq_some_iff.1 hledger
  have hcapped := h plainHost oneCharacter _ _ s ?_ hrun "task"
  · have hcharacters := hcapped.usage.inputCharacters
    rw [heq] at hcharacters
    revert hcharacters
    decide
  · intro e he context hcontext
    simp only [mem_cons, not_mem_nil, or_false] at he
    rcases he with rfl | rfl | rfl | rfl | rfl | rfl <;> cases hcontext <;> rfl

end BeauPi.Search
