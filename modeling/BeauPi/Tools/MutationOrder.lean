import Mathlib.Data.Nat.Find
import BeauPi.Tools.FileMutationQueue

/-!
# The order of the callbacks of one key

* `InOrder`, `TableEmpty` — what the queue promises of the callbacks of one key and of its table.
* `Effect` — what the steps presuppose and do.
* `Ordered` — the invariant: a registered call stands behind the last call of its key.
-/

namespace BeauPi.Tools

open Machine List
open Option (any_eq_true any_some map_eq_some_iff map_none some.inj)
open QueueSystem (key? isRegistered state? registration? isStarted)

variable {FS : Type} {s t : QueueSystem FS} {resolve : String → String} {i j : Nat}
  {before state : CallState} {r : Registration} {key : String}

/-! ## What is promised -/

/-- A callback is called only after the earlier ones of its key have settled. -/
def InOrder (s : QueueSystem FS) : Prop :=
  ∀ i j, i < j → s.key? i = s.key? j → s.isStarted j = true → s.isSettled i = true

/-- When every call has settled, the table is empty. -/
def TableEmpty (s : QueueSystem FS) : Prop :=
  (∀ i < s.calls.length, s.isSettled i = true) → s.fileMutationQueues.size = 0

/-! ## Looking at calls -/

theorem state?_setState (h : s.state? i = some before) (state : CallState) (j : Nat) :
    (s.setState i state).state? j = if j = i then some state else s.state? j := by
  unfold state? at h ⊢
  rw [QueueSystem.setState, getElem?_modify]
  by_cases hj : j = i
  · subst hj
    cases hget : s.calls[j]? with
    | none => simp [hget] at h
    | some c => simp
  · cases s.calls[j]? <;> simp [hj, Ne.symm hj]

@[simp] theorem isChained_setState (i : Nat) (state : CallState) (j : Nat) :
    (s.setState i state).isChained j = s.isChained j := by
  unfold QueueSystem.isChained
  rw [QueueSystem.setState, getElem?_modify]
  by_cases hj : i = j <;> cases s.calls[j]? <;> simp [hj]

@[simp] theorem length_setState (i : Nat) (state : CallState) :
    (s.setState i state).calls.length = s.calls.length := by
  simp [QueueSystem.setState]

theorem state?_chain (i j : Nat) :
    ({ s with calls := s.calls.modify i fun c => { c with chained := true } } :
      QueueSystem FS).state? j = s.state? j := by
  unfold state?
  rw [getElem?_modify]
  by_cases hj : i = j <;> cases s.calls[j]? <;> simp [hj]

/-- What is read off the state of a call is read off the new state of that call only. -/
theorem registration?_setState (h : s.state? i = some before) (state : CallState) (j : Nat) :
    (s.setState i state).registration? j =
      if j = i then state.registration? else s.registration? j := by
  unfold registration?
  rw [state?_setState h]
  split_ifs <;> rfl

theorem isStarted_setState (h : s.state? i = some before) (state : CallState) (j : Nat) :
    (s.setState i state).isStarted j = if j = i then state.isStarted else s.isStarted j := by
  unfold isStarted
  rw [state?_setState h]
  split_ifs <;> rfl

theorem isRegistered_setState (h : s.state? i = some before) (state : CallState) (j : Nat) :
    (s.setState i state).isRegistered j =
      if j = i then state.isRegistered else s.isRegistered j := by
  unfold isRegistered
  rw [state?_setState h]
  split_ifs <;> rfl

theorem isSettled_setState (h : s.state? i = some before) (state : CallState) (j : Nat) :
    (s.setState i state).isSettled j = if j = i then state.isSettled else s.isSettled j := by
  unfold QueueSystem.isSettled
  rw [state?_setState h]
  split_ifs <;> rfl

theorem key?_setState (h : s.state? i = some before) (state : CallState) (j : Nat) :
    (s.setState i state).key? j =
      if j = i then state.registration?.map (·.key) else s.key? j := by
  unfold key?
  rw [registration?_setState h]
  split_ifs <;> rfl

/-- A call of which something is known has been made. -/
theorem lt_length_of_state? (h : s.state? i = some state) : i < s.calls.length := by
  obtain ⟨c, hc, -⟩ := map_eq_some_iff.1 h
  exact (List.getElem?_eq_some_iff.1 hc).1

theorem state?_of_call {c : Call} (h : s.calls[i]? = some c) : s.state? i = some c.state := by
  rw [state?, h, Option.map_some]

/-! ## What a step does -/

/-- The steps, with what they presuppose. -/
inductive Effect (resolve : String → String) (s : QueueSystem FS) :
    Event FS → QueueSystem FS → Prop
  | called (filePath : String) (optionsKey : Option String) :
      Effect resolve s (.call filePath optionsKey)
        { s with calls := s.calls ++ [⟨filePath, optionsKey, .queued, false⟩] }
  | resolving {i : Nat} (hstate : s.state? i = some .queued)
      (hturn : i = 0 ∨ s.isRegistered (i - 1) = true) :
      Effect resolve s (.begin i) (s.setState i .resolving)
  | keyed {i : Nat} {c : Call} {key : String} (hget : s.calls[i]? = some c)
      (hstate : c.state = .queued) (hturn : i = 0 ∨ s.isRegistered (i - 1) = true)
      (hkey : c.optionsKey = some key) : Effect resolve s (.begin i) (s.register i key)
  | resolved {i : Nat} {c : Call} {answer : Realpath} {key : String}
      (hget : s.calls[i]? = some c) (hstate : c.state = .resolving)
      (hkey : getMutationQueueKey (resolve c.filePath) answer = .ok key) :
      Effect resolve s (.resolved i answer) (s.register i key)
  | rejected {i : Nat} {answer : Realpath} (message : String)
      (hstate : s.state? i = some .resolving) :
      Effect resolve s (.resolved i answer) (s.setState i (.rejected message))
  | started {i : Nat} {r : Registration} (hstate : s.state? i = some (.waiting r))
      (hfree : s.isFree r.currentQueue = true) :
      Effect resolve s (.start i) (s.setState i (.running r))
  | settled {i : Nat} {r : Registration} (threw : Bool) (hstate : s.state? i = some (.running r)) :
      Effect resolve s (.settle i threw) (s.finish i r threw)
  | chained {i : Nat} {c : Call} {r : Registration} {threw : Bool} (hget : s.calls[i]? = some c)
      (hstate : c.state = .finished r threw) (hnot : c.chained = false)
      (hfree : s.isFree r.currentQueue = true) :
      Effect resolve s (.chain i)
        { s with calls := s.calls.modify i fun c => { c with chained := true } }
  | changed (fileSystem : FS) :
      Effect resolve s (.change fileSystem) { s with fileSystem := fileSystem }

theorem effect_of_step {e : Event FS} (h : step resolve s e = some t) : Effect resolve s e t := by
  cases e with
  | call filePath optionsKey =>
    obtain rfl := some.inj h
    exact .called filePath optionsKey
  | begin i =>
    simp only [step] at h
    split at h
    · rename_i filePath optionsKey chained hget
      split_ifs at h with hturn
      cases optionsKey with
      | none =>
        obtain rfl := some.inj h
        exact .resolving (state?_of_call hget) hturn
      | some key =>
        obtain rfl := some.inj h
        exact .keyed hget rfl hturn rfl
    · cases h
  | resolved i answer =>
    simp only [step] at h
    split at h
    · rename_i filePath optionsKey chained hget
      split at h
      · rename_i key hkey
        obtain rfl := some.inj h
        exact .resolved hget rfl hkey
      · rename_i message hkey
        obtain rfl := some.inj h
        exact .rejected message (state?_of_call hget)
    · cases h
  | start i =>
    simp only [step] at h
    split at h
    · rename_i r hstate
      split_ifs at h with hfree
      obtain rfl := some.inj h
      exact .started hstate hfree
    · cases h
  | settle i threw =>
    simp only [step] at h
    split at h
    · rename_i r hstate
      obtain rfl := some.inj h
      exact .settled threw hstate
    · cases h
  | chain i =>
    simp only [step] at h
    split at h
    · rename_i filePath optionsKey r threw hget
      split_ifs at h with hfree
      obtain rfl := some.inj h
      exact .chained hget rfl rfl hfree
    · cases h
  | change fileSystem =>
    obtain rfl := some.inj h
    exact .changed fileSystem

/-! ## The invariant -/

/-- A call with a registration `r` stands behind the last earlier call of its key, if the table had
its promise, and otherwise all earlier calls of its key have settled. -/
def StandsBehind (s : QueueSystem FS) (call : Nat) (r : Registration) : Prop :=
  match r.currentQueue with
  | some i => i < call ∧ s.key? i = some r.key ∧ ∀ h, i < h → h < call → s.key? h ≠ some r.key
  | none => ∀ i < call, s.key? i = some r.key → s.isSettled i = true

/-- The invariant of the queue. -/
structure Ordered (s : QueueSystem FS) : Prop where
  /-- registrations begin one after the other -/
  begun : ∀ i j state, i < j → s.state? j = some state → state ≠ .queued →
    s.isRegistered i = true
  /-- the table has the promise of the last call of a key as long as that call has not settled -/
  table : ∀ key i, s.fileMutationQueues.get? key = some i ↔
    s.key? i = some key ∧ s.isSettled i = false ∧ ∀ j, i < j → s.key? j ≠ some key
  behind : ∀ j r, s.registration? j = some r → StandsBehind s j r
  chained : ∀ j, s.isChained j = true → s.isStarted j = true ∧ s.isSettled j = true
  started : ∀ j r, s.registration? j = some r → s.isStarted j = true →
    s.isFree r.currentQueue = true

theorem key?_eq_some : s.key? i = some key ↔ ∃ r, s.registration? i = some r ∧ r.key = key :=
  map_eq_some_iff

theorem registration?_eq_some : s.registration? i = some r ↔
    ∃ state, s.state? i = some state ∧ state.registration? = some r :=
  Option.bind_eq_some_iff

/-- A call with a registration is registered. -/
theorem isRegistered_of_registration (h : s.registration? i = some r) :
    s.isRegistered i = true := by
  obtain ⟨state, hstate, hr⟩ := registration?_eq_some.1 h
  rw [isRegistered, hstate, any_some]
  cases state <;> first | rfl | cases hr

/-- So is a call that has settled. -/
theorem isRegistered_of_settled (h : s.isSettled i = true) : s.isRegistered i = true := by
  obtain ⟨state, hstate, hsettled⟩ := (any_eq_true _ _).1 h
  rw [isRegistered, hstate, any_some]
  cases state <;> first | rfl | cases hsettled

/-- A call whose callback was called has a registration. -/
theorem exists_registration (h : s.isStarted i = true) : ∃ r, s.registration? i = some r := by
  obtain ⟨state, hstate, hstarted⟩ := (any_eq_true _ _).1 h
  cases state with
  | running r | finished r => exact ⟨r, registration?_eq_some.2 ⟨_, hstate, rfl⟩⟩
  | _ => cases hstarted

/-- A call that was called back has only settled calls of its key before it, if this is so for
every resolved promise before it. -/
theorem Ordered.settled_before (h : Ordered s) (hstarted : s.isStarted j = true)
    (hback : ∀ k < j, s.isChained k = true → ∀ i ≤ k, s.key? i = s.key? k → s.isSettled i = true) :
    ∀ i < j, s.key? i = s.key? j → s.isSettled i = true := by
  intro i hij hkey
  obtain ⟨r, hr⟩ := exists_registration hstarted
  have hkeyj : s.key? j = some r.key := key?_eq_some.2 ⟨r, hr, rfl⟩
  have hbehind := h.behind j r hr
  have hfree := h.started j r hr hstarted
  unfold StandsBehind at hbehind
  cases hqueue : r.currentQueue with
  | none =>
    rw [hqueue] at hbehind
    exact hbehind i hij (hkey.trans hkeyj)
  | some k =>
    rw [hqueue] at hbehind hfree
    obtain ⟨hkj, hkeyk, hbetween⟩ := hbehind
    have hik : i ≤ k := by
      by_contra hki
      exact hbetween i (by omega) hij (hkey.trans hkeyj)
    exact hback k hkj hfree i hik (by rw [hkey, hkeyj, hkeyk])

/-- **Behind a resolved promise every call of the key has settled.** -/
theorem Ordered.settled_of_chained (h : Ordered s) (hchained : s.isChained j = true) :
    ∀ i ≤ j, s.key? i = s.key? j → s.isSettled i = true := by
  induction j using Nat.strongRecOn with
  | ind j ih =>
    intro i hij hkey
    obtain ⟨hstarted, hsettled⟩ := h.chained j hchained
    rcases Nat.eq_or_lt_of_le hij with rfl | hlt
    · exact hsettled
    · exact h.settled_before hstarted ih i hlt hkey

/-- The callbacks of one key run in the order of the calls. -/
theorem Ordered.inOrder (h : Ordered s) : InOrder s := by
  intro i j hij hkey hstarted
  exact h.settled_before hstarted (fun _ _ => h.settled_of_chained) i hij hkey

/-- An empty table is left when every call has settled. -/
theorem Ordered.tableEmpty (h : Ordered s) : TableEmpty s := by
  intro hsettled
  rw [OrderedMap.size_eq_zero_iff]
  intro key
  cases hget : s.fileMutationQueues.get? key with
  | none => rfl
  | some i =>
    obtain ⟨hkey, hnot, -⟩ := (h.table key i).1 hget
    obtain ⟨r, hr, -⟩ := key?_eq_some.1 hkey
    obtain ⟨state, hstate, -⟩ := registration?_eq_some.1 hr
    rw [hsettled i (lt_length_of_state? hstate)] at hnot
    cases hnot

/-! ## The steps keep the invariant -/

/-- A call that is made changes nothing for the others. -/
theorem state?_called (c : Call) (hc : c.state = .queued) (j : Nat) :
    (⟨s.fileMutationQueues, s.calls ++ [c], s.fileSystem⟩ : QueueSystem FS).state? j =
      if j = s.calls.length then some .queued else s.state? j := by
  unfold state?
  by_cases hj : j = s.calls.length
  · simp [hj, hc]
  · rcases Nat.lt_or_gt_of_ne hj with hlt | hgt
    · simp [getElem?_append_left hlt, hj]
    · rw [getElem?_eq_none (by simp; omega), getElem?_eq_none (by omega), if_neg hj]

/-- What the invariant says depends on the states, the resolved promises and the table only, and
of the states not on those that wait for their registration. -/
theorem Ordered.of_same (h : Ordered s) (htable : t.fileMutationQueues = s.fileMutationQueues)
    (hregistration : ∀ j, t.registration? j = s.registration? j)
    (hsettled : ∀ j, s.registration? j ≠ none → t.isSettled j = s.isSettled j)
    (hstarted : ∀ j, t.isStarted j = s.isStarted j)
    (hchained : ∀ j, t.isChained j = s.isChained j)
    (hbegun : ∀ i j state, i < j → t.state? j = some state → state ≠ .queued →
      t.isRegistered i = true) : Ordered t := by
  have hkey : ∀ j, t.key? j = s.key? j := fun j => by
    rw [key?, hregistration, key?]
  have hknown : ∀ j key, s.key? j = some key → t.isSettled j = s.isSettled j := by
    intro j key hj
    obtain ⟨r, hr, -⟩ := key?_eq_some.1 hj
    exact hsettled j (by simp [hr])
  have hfree : ∀ queue, t.isFree queue = s.isFree queue := by
    intro queue
    unfold QueueSystem.isFree
    rw [funext hchained]
  refine ⟨hbegun, fun key i => ?_, fun j r hr => ?_, fun j hj => ?_, fun j r hr hj => ?_⟩
  · rw [htable, h.table key i, hkey]
    simp only [hkey]
    constructor
    · rintro ⟨hi, hnot, hlast⟩
      exact ⟨hi, by rw [hknown i key hi, hnot], hlast⟩
    · rintro ⟨hi, hnot, hlast⟩
      exact ⟨hi, by rw [← hknown i key hi, hnot], hlast⟩
  · have hbehind := h.behind j r (hregistration j ▸ hr)
    unfold StandsBehind at hbehind ⊢
    simp only [hkey]
    cases hqueue : r.currentQueue with
    | none =>
      rw [hqueue] at hbehind
      exact fun i hij hi => by rw [hknown i _ hi, hbehind i hij hi]
    | some k => rwa [hqueue] at hbehind
  · obtain ⟨hs, hset⟩ := h.chained j (hchained j ▸ hj)
    obtain ⟨r, hr⟩ := exists_registration hs
    exact ⟨by rw [hstarted, hs], by rw [hsettled j (by simp [hr]), hset]⟩
  · rw [hfree]
    exact h.started j r (hregistration j ▸ hr) (hstarted j ▸ hj)

/-- The begun calls after a call went over to a state that is not `queued`. -/
theorem Ordered.begun_setState (h : Ordered s) (hi : s.state? i = some before)
    (hnew : s.isRegistered i = true → state.isRegistered = true)
    (hearlier : ∀ k < i, s.isRegistered k = true) :
    ∀ k j st, k < j → (s.setState i state).state? j = some st → st ≠ .queued →
      (s.setState i state).isRegistered k = true := by
  intro k j st hkj hj hst
  rw [state?_setState hi] at hj
  rw [isRegistered_setState hi]
  by_cases hji : j = i
  · rw [if_neg (by omega)]
    exact hearlier k (hji ▸ hkj)
  · rw [if_neg hji] at hj
    by_cases hki : k = i
    · rw [if_pos hki]
      exact hnew (hki ▸ h.begun k j st hkj hj hst)
    · rw [if_neg hki]
      exact h.begun k j st hkj hj hst

/-- The calls before one whose registration may begin are registered. -/
theorem Ordered.registered_before (h : Ordered s)
    (hturn : i = 0 ∨ s.isRegistered (i - 1) = true) : ∀ k < i, s.isRegistered k = true := by
  intro k hk
  have hprev : s.isRegistered (i - 1) = true := hturn.resolve_left (by omega)
  rcases Nat.eq_or_lt_of_le (show k ≤ i - 1 by omega) with rfl | hlt'
  · exact hprev
  · obtain ⟨st, hst, hreg⟩ := (any_eq_true _ _).1 hprev
    exact h.begun k (i - 1) st hlt' hst (by rintro rfl; cases hreg)

/-- A call that awaits `realpath` has only registered ones before it. -/
theorem Ordered.registered_before_resolving (h : Ordered s)
    (hstate : s.state? i = some .resolving) : ∀ k < i, s.isRegistered k = true :=
  fun k hk => h.begun k i .resolving hk hstate (by simp)

theorem registration?_of_state (h : s.state? i = some state) :
    s.registration? i = state.registration? := by
  rw [registration?, h, Option.bind_some]

theorem isRegistered_of_state (h : s.state? i = some state) :
    s.isRegistered i = state.isRegistered := by
  rw [isRegistered, h, any_some]

theorem isSettled_of_state (h : s.state? i = some state) : s.isSettled i = state.isSettled := by
  rw [QueueSystem.isSettled, h, any_some]

theorem isStarted_of_state (h : s.state? i = some state) : s.isStarted i = state.isStarted := by
  rw [isStarted, h, any_some]

theorem Ordered.called (h : Ordered s) (filePath : String) (optionsKey : Option String) :
    Ordered { s with calls := s.calls ++ [⟨filePath, optionsKey, .queued, false⟩] } := by
  have hstate := state?_called (s := s) ⟨filePath, optionsKey, .queued, false⟩ rfl
  have hnone : s.state? s.calls.length = none := by
    rw [state?, getElem?_eq_none (Nat.le_refl _), map_none]
  refine h.of_same rfl (fun j => ?_) (fun j _ => ?_) (fun j => ?_) (fun j => ?_) ?_
  · simp only [registration?, hstate]
    split_ifs with hj
    · rw [hj, hnone]; rfl
    · rfl
  · simp only [QueueSystem.isSettled, hstate]
    split_ifs with hj
    · rw [hj, hnone]; rfl
    · rfl
  · simp only [isStarted, hstate]
    split_ifs with hj
    · rw [hj, hnone]; rfl
    · rfl
  · unfold QueueSystem.isChained
    rcases Nat.lt_trichotomy j s.calls.length with hlt | heq | hgt
    · simp only [getElem?_append_left hlt]
    · simp [heq]
    · rw [getElem?_eq_none (by simp; omega), getElem?_eq_none (by omega)]
  · intro k j st hkj hj hst
    rw [hstate] at hj
    split_ifs at hj with hlast
    · exact absurd (some.inj hj).symm hst
    · have hk := h.begun k j st hkj hj hst
      simp only [isRegistered, hstate]
      split_ifs with hkl
      · have := lt_length_of_state? hj
        omega
      · exact hk

/-- A call without a registration goes over to a state without one. -/
theorem Ordered.setState_unregistered (h : Ordered s) (hi : s.state? i = some before)
    (hbefore : before.registration? = none) (hstate : state.registration? = none)
    (hnew : before.isRegistered = true → state.isRegistered = true)
    (hearlier : ∀ k < i, s.isRegistered k = true) : Ordered (s.setState i state) := by
  have hnotStarted : ∀ st : CallState, st.registration? = none → st.isStarted = false := by
    intro st hst
    cases st <;> first | rfl | cases hst
  refine h.of_same rfl (fun j => ?_) (fun j hj => ?_) (fun j => ?_) (fun j => ?_)
    (h.begun_setState hi (fun hreg => hnew (isRegistered_of_state hi ▸ hreg)) hearlier)
  · rw [registration?_setState hi]
    split_ifs with hji
    · rw [hji, registration?_of_state hi, hbefore, hstate]
    · rfl
  · rw [isSettled_setState hi, if_neg]
    rintro rfl
    exact hj (by rw [registration?_of_state hi, hbefore])
  · rw [isStarted_setState hi]
    split_ifs with hji
    · rw [hji, isStarted_of_state hi, hnotStarted _ hbefore, hnotStarted _ hstate]
    · rfl
  · exact isChained_setState i state j

/-- Among the calls of a key there is a last one. -/
theorem exists_last (h : s.key? i = some key) :
    ∃ m, i ≤ m ∧ s.key? m = some key ∧ ∀ j, m < j → s.key? j ≠ some key := by
  have hlt : ∀ j, s.key? j = some key → j ≤ s.calls.length := by
    intro j hj
    obtain ⟨r, hr, -⟩ := key?_eq_some.1 hj
    obtain ⟨state, hstate, -⟩ := registration?_eq_some.1 hr
    exact Nat.le_of_lt (lt_length_of_state? hstate)
  refine ⟨Nat.findGreatest (fun j => s.key? j = some key) s.calls.length,
    Nat.le_findGreatest (hlt i h) h,
    Nat.findGreatest_spec (P := fun j => s.key? j = some key) (hlt i h) h, fun j hj hkey => ?_⟩
  exact Nat.findGreatest_is_greatest hj (hlt j hkey) hkey

/-- A registered call that has settled was called back. -/
theorem isStarted_of_settled (hr : s.registration? i = some r) (h : s.isSettled i = true) :
    s.isStarted i = true := by
  obtain ⟨state, hstate, hregistration⟩ := registration?_eq_some.1 hr
  rw [isSettled_of_state hstate] at h
  rw [isStarted_of_state hstate]
  cases state with
  | running r => rfl
  | finished r threw => rfl
  | waiting r => cases h
  | queued | resolving | rejected => cases hregistration

/-- A call takes its place behind the last call of its key. -/
theorem Ordered.register (h : Ordered s) (hi : s.state? i = some before)
    (hbefore : before.registration? = none) (hearlier : ∀ k < i, s.isRegistered k = true)
    (hlater : ∀ j, i < j → s.registration? j = none) (key : String) :
    Ordered (s.register i key) := by
  have hkeyi : s.key? i = none := by
    rw [key?, registration?_of_state hi, hbefore, map_none]
  have hkeyLater : ∀ j, i < j → s.key? j = none := fun j hj => by
    rw [key?, hlater j hj, map_none]
  have hnotStarted : s.isStarted i = false := by
    rw [isStarted_of_state hi]
    cases before <;> first | rfl | cases hbefore
  have hkey : ∀ j, (s.register i key).key? j = if j = i then some key else s.key? j :=
    key?_setState hi (.waiting ⟨key, _⟩)
  have hsettled : ∀ j, (s.register i key).isSettled j = if j = i then false else s.isSettled j :=
    isSettled_setState hi (.waiting ⟨key, _⟩)
  have hstarted : ∀ j, (s.register i key).isStarted j = if j = i then false else s.isStarted j :=
    isStarted_setState hi (.waiting ⟨key, _⟩)
  have hregistration : ∀ j, (s.register i key).registration? j =
      if j = i then some ⟨key, s.fileMutationQueues.get? key⟩ else s.registration? j :=
    registration?_setState hi (.waiting ⟨key, _⟩)
  have hchained : ∀ j, (s.register i key).isChained j = s.isChained j :=
    isChained_setState i (.waiting ⟨key, _⟩)
  have hfree : ∀ queue, (s.register i key).isFree queue = s.isFree queue := fun queue => by
    unfold QueueSystem.isFree
    rw [funext hchained]
  refine ⟨h.begun_setState hi (fun _ => rfl) hearlier, fun k n => ?_, fun j r hr => ?_,
    fun j hj => ?_, fun j r hr hj => ?_⟩
  · -- the table has the new promise under the key, and the old ones under the others
    rw [hkey, hsettled]
    show (s.fileMutationQueues.set key i).get? k = some n ↔ _
    simp only [hkey]
    by_cases hk : k = key
    · subst hk
      rw [OrderedMap.get?_set_self]
      constructor
      · rintro hn
        obtain rfl := some.inj hn
        refine ⟨if_pos rfl, if_pos rfl, fun j hj => ?_⟩
        rw [if_neg (by omega), hkeyLater j hj]
        simp
      · rintro ⟨hn, -, hlast⟩
        by_cases hni : n = i
        · rw [hni]
        · rw [if_neg hni] at hn
          rcases Nat.lt_or_gt_of_ne hni with hlt | hgt
          · exact absurd (if_pos rfl) (hlast i hlt)
          · rw [hkeyLater n hgt] at hn
            cases hn
    · rw [OrderedMap.get?_set_ne _ _ hk, h.table k n]
      by_cases hni : n = i
      · subst hni
        simp [hkeyi, Ne.symm hk]
      · rw [if_neg hni, if_neg hni]
        refine and_congr_right fun _ => and_congr_right fun _ => forall_congr' fun j => ?_
        refine imp_congr_right fun _ => ?_
        by_cases hji : j = i
        · subst hji
          simp [hkeyi, Ne.symm hk]
        · rw [if_neg hji]
  · rw [hregistration] at hr
    by_cases hji : j = i
    · subst hji
      rw [if_pos rfl] at hr
      obtain rfl := some.inj hr
      unfold StandsBehind
      dsimp only
      cases hget : s.fileMutationQueues.get? key with
      | some k =>
        obtain ⟨hk, -, hlast⟩ := (h.table key k).1 hget
        have hkj : k < j := by
          rcases Nat.lt_trichotomy k j with hlt | heq | hgt
          · exact hlt
          · rw [heq, hkeyi] at hk
            cases hk
          · rw [hkeyLater k hgt] at hk
            cases hk
        refine ⟨hkj, ?_, fun n hkn hnj => ?_⟩
        · rw [hkey, if_neg (by omega), hk]
        · rw [hkey, if_neg (by omega)]
          exact hlast n hkn
      | none =>
        intro k hkj hk
        rw [hkey, if_neg (by omega)] at hk
        rw [hsettled, if_neg (by omega)]
        by_contra hnot
        -- the last call of the key would be in the table, or it has passed the unsettled one
        obtain ⟨m, hkm, hm, hlast⟩ := exists_last hk
        cases hsettledm : s.isSettled m with
        | false =>
          rw [(h.table key m).2 ⟨hm, hsettledm, hlast⟩] at hget
          cases hget
        | true =>
          rcases Nat.eq_or_lt_of_le hkm with rfl | hlt
          · exact hnot hsettledm
          · refine hnot (h.inOrder k m hlt (hk.trans hm.symm) ?_)
            exact isStarted_of_settled (key?_eq_some.1 hm).choose_spec.1 hsettledm
    · rw [if_neg hji] at hr
      have hbehind := h.behind j r hr
      have hjlt : j < i := by
        rcases Nat.lt_or_gt_of_ne hji with hlt | hgt
        · exact hlt
        · rw [hlater j hgt] at hr
          cases hr
      unfold StandsBehind at hbehind ⊢
      cases hqueue : r.currentQueue with
      | some k =>
        rw [hqueue] at hbehind
        obtain ⟨hkj, hk, hbetween⟩ := hbehind
        refine ⟨hkj, ?_, fun n hkn hnj => ?_⟩
        · rw [hkey, if_neg (by omega), hk]
        · rw [hkey, if_neg (by omega)]
          exact hbetween n hkn hnj
      | none =>
        rw [hqueue] at hbehind
        intro k hkj hk
        rw [hkey, if_neg (by omega)] at hk
        rw [hsettled, if_neg (by omega)]
        exact hbehind k hkj hk
  · rw [hchained] at hj
    obtain ⟨hs, hset⟩ := h.chained j hj
    have hji : j ≠ i := by
      rintro rfl
      rw [hnotStarted] at hs
      cases hs
    rw [hstarted, hsettled, if_neg hji, if_neg hji]
    exact ⟨hs, hset⟩
  · rw [hfree]
    rw [hstarted] at hj
    rw [hregistration] at hr
    have hji : j ≠ i := by
      rintro rfl
      rw [if_pos rfl] at hj
      cases hj
    rw [if_neg hji] at hr hj
    exact h.started j r hr hj

/-- A call calls its callback once its promise has resolved. -/
theorem Ordered.start (h : Ordered s) (hi : s.state? i = some (.waiting r))
    (hfree : s.isFree r.currentQueue = true) : Ordered (s.setState i (.running r)) := by
  have hr : s.registration? i = some r := registration?_of_state hi
  have hregistration : ∀ j, (s.setState i (.running r)).registration? j = s.registration? j := by
    intro j
    rw [registration?_setState hi]
    split_ifs with hji
    · rw [hji, hr]; rfl
    · rfl
  have hkey : ∀ j, (s.setState i (.running r)).key? j = s.key? j := fun j => by
    rw [key?, hregistration, key?]
  have hsettled : ∀ j, (s.setState i (.running r)).isSettled j = s.isSettled j := by
    intro j
    rw [isSettled_setState hi]
    split_ifs with hji
    · rw [hji, isSettled_of_state hi]; rfl
    · rfl
  have hstarted : ∀ j, s.isStarted j = true → (s.setState i (.running r)).isStarted j = true := by
    intro j hj
    rw [isStarted_setState hi]
    split_ifs
    · rfl
    · exact hj
  have hsame : ∀ queue, (s.setState i (.running r)).isFree queue = s.isFree queue := by
    intro queue
    unfold QueueSystem.isFree
    rw [funext (isChained_setState i (.running r))]
  have hearlier : ∀ k < i, s.isRegistered k = true := fun k hk =>
    h.begun k i _ hk hi (by simp)
  refine ⟨h.begun_setState hi (fun _ => rfl) hearlier, fun key k => ?_, fun j q hq => ?_,
    fun j hj => ?_, fun j q hq hj => ?_⟩
  · simp only [hkey, hsettled]
    exact h.table key k
  · have hbehind := h.behind j q (hregistration j ▸ hq)
    unfold StandsBehind at hbehind ⊢
    simpa only [hkey, hsettled] using hbehind
  · rw [isChained_setState] at hj
    rw [hsettled]
    exact ⟨hstarted j (h.chained j hj).1, (h.chained j hj).2⟩
  · rw [hsame]
    rw [hregistration] at hq
    rw [isStarted_setState hi] at hj
    by_cases hji : j = i
    · subst hji
      rw [hr] at hq
      obtain rfl := some.inj hq
      exact hfree
    · rw [if_neg hji] at hj
      exact h.started j q hq hj

/-- A settled call leaves the table. -/
theorem Ordered.finish (h : Ordered s) (hi : s.state? i = some (.running r)) (threw : Bool) :
    Ordered (s.finish i r threw) := by
  have hr : s.registration? i = some r := registration?_of_state hi
  have hkeyi : s.key? i = some r.key := key?_eq_some.2 ⟨r, hr, rfl⟩
  have hregistration : ∀ j, (s.finish i r threw).registration? j = s.registration? j := by
    intro j
    show (s.setState i (.finished r threw)).registration? j = _
    rw [registration?_setState hi]
    split_ifs with hji
    · rw [hji, hr]; rfl
    · rfl
  have hkey : ∀ j, (s.finish i r threw).key? j = s.key? j := fun j => by
    rw [key?, hregistration, key?]
  have hsettled : ∀ j, (s.finish i r threw).isSettled j = if j = i then true else s.isSettled j :=
    isSettled_setState hi (.finished r threw)
  have hmono : ∀ j, s.isSettled j = true → (s.finish i r threw).isSettled j = true := by
    intro j hj
    rw [hsettled]
    split_ifs
    · rfl
    · exact hj
  have hstarted : ∀ j, (s.finish i r threw).isStarted j = s.isStarted j := by
    intro j
    show (s.setState i (.finished r threw)).isStarted j = _
    rw [isStarted_setState hi]
    split_ifs with hji
    · rw [hji, isStarted_of_state hi]; rfl
    · rfl
  have hsame : ∀ queue, (s.finish i r threw).isFree queue = s.isFree queue := by
    intro queue
    have hchained : ∀ j, (s.finish i r threw).isChained j = s.isChained j :=
      isChained_setState i (.finished r threw)
    unfold QueueSystem.isFree
    rw [funext hchained]
  have hearlier : ∀ k < i, s.isRegistered k = true := fun k hk =>
    h.begun k i _ hk hi (by simp)
  refine ⟨h.begun_setState hi (fun _ => rfl) hearlier, fun key k => ?_, fun j q hq => ?_,
    fun j hj => ?_, fun j q hq hj => ?_⟩
  · -- the entry goes exactly when it is the one of this call
    have hunsettled : s.isSettled i = false := isSettled_of_state hi
    have hget : (s.finish i r threw).fileMutationQueues.get? key = some k ↔
        s.fileMutationQueues.get? key = some k ∧ k ≠ i := by
      show (if s.fileMutationQueues.get? r.key = some i then s.fileMutationQueues.delete r.key
        else s.fileMutationQueues).get? key = some k ↔ _
      split_ifs with hown
      · by_cases hk : key = r.key
        · subst hk
          rw [OrderedMap.get?_delete_self, hown]
          simp [eq_comm]
        · rw [OrderedMap.get?_delete_ne _ hk]
          refine ⟨fun hget => ⟨hget, ?_⟩, fun hget => hget.1⟩
          rintro rfl
          rw [((h.table key k).1 hget).1] at hkeyi
          exact hk (some.inj hkeyi)
      · refine ⟨fun hget => ⟨hget, ?_⟩, fun hget => hget.1⟩
        rintro rfl
        have hk := ((h.table key k).1 hget).1
        rw [hkeyi] at hk
        rw [some.inj hk, hget] at hown
        exact hown rfl
    rw [hget, h.table key k, hsettled]
    simp only [hkey]
    by_cases hki : k = i
    · simp [hki]
    · simp [hki]
  · have hbehind := h.behind j q (hregistration j ▸ hq)
    unfold StandsBehind at hbehind ⊢
    simp only [hkey]
    cases hqueue : q.currentQueue with
    | none =>
      rw [hqueue] at hbehind
      exact fun k hkj hk => hmono k (hbehind k hkj hk)
    | some k => rwa [hqueue] at hbehind
  · have hj' : s.isChained j = true := by
      rwa [← isChained_setState i (.finished r threw)]
    rw [hstarted]
    exact ⟨(h.chained j hj').1, hmono j (h.chained j hj').2⟩
  · rw [hsame]
    exact h.started j q (hregistration j ▸ hq) (hstarted j ▸ hj)

/-- The promise of a settled call resolves. -/
theorem Ordered.chain (h : Ordered s) (hi : s.isStarted i = true ∧ s.isSettled i = true) :
    Ordered { s with calls := s.calls.modify i fun c => { c with chained := true } } := by
  generalize ht : ({ s with
    calls := s.calls.modify i fun c => { c with chained := true } } : QueueSystem FS) = t
  have hstate : ∀ j, t.state? j = s.state? j := ht ▸ state?_chain i
  have hchained : ∀ j, t.isChained j = true ↔ s.isChained j = true ∨ j = i := by
    intro j
    subst ht
    unfold QueueSystem.isChained
    rw [getElem?_modify]
    by_cases hj : i = j
    · subst hj
      obtain ⟨st, hst, -⟩ := (any_eq_true _ _).1 hi.1
      obtain ⟨c, hc, -⟩ := map_eq_some_iff.1 hst
      simp [hc]
    · cases s.calls[j]? <;> simp [hj, Ne.symm hj]
  have htable : t.fileMutationQueues = s.fileMutationQueues := by subst ht; rfl
  have hfree : ∀ queue, s.isFree queue = true → t.isFree queue = true := by
    intro queue hq
    cases queue with
    | none => rfl
    | some k => exact (hchained k).2 (.inl hq)
  have hregistration : ∀ j, t.registration? j = s.registration? j := fun j => by
    rw [registration?, hstate, registration?]
  have hkey : ∀ j, t.key? j = s.key? j := fun j => by
    rw [key?, hregistration, key?]
  have hsettled : ∀ j, t.isSettled j = s.isSettled j := fun j => by
    rw [QueueSystem.isSettled, hstate, QueueSystem.isSettled]
  have hstarted : ∀ j, t.isStarted j = s.isStarted j := fun j => by
    rw [isStarted, hstate, isStarted]
  have hregistered : ∀ j, t.isRegistered j = s.isRegistered j := fun j => by
    rw [isRegistered, hstate, isRegistered]
  refine ⟨fun k j st hkj hj hst => ?_, fun key k => ?_, fun j r hr => ?_, fun j hj => ?_,
    fun j r hr hj => ?_⟩
  · rw [hregistered]
    exact h.begun k j st hkj (hstate j ▸ hj) hst
  · rw [htable, h.table key k]
    simp only [hkey, hsettled]
  · have hbehind := h.behind j r (hregistration j ▸ hr)
    unfold StandsBehind at hbehind ⊢
    simpa only [hkey, hsettled] using hbehind
  · rw [hstarted, hsettled]
    rcases (hchained j).1 hj with hold | rfl
    · exact h.chained j hold
    · exact hi
  · exact hfree _ (h.started j r (hregistration j ▸ hr) (hstarted j ▸ hj))

/-- No call after one whose registration has not settled has a registration. -/
theorem Ordered.unregistered_after (h : Ordered s) (hi : s.state? i = some before)
    (hbefore : before.isRegistered = false) : ∀ j, i < j → s.registration? j = none := by
  intro j hij
  cases hr : s.registration? j with
  | none => rfl
  | some r =>
    obtain ⟨state, hstate, hregistration⟩ := registration?_eq_some.1 hr
    have hregistered := h.begun i j state hij hstate (by rintro rfl; cases hregistration)
    rw [isRegistered_of_state hi, hbefore] at hregistered
    cases hregistered

/-- **Every step keeps the invariant.** -/
theorem Ordered.step (h : Ordered s) {e : Event FS} (hstep : step resolve s e = some t) :
    Ordered t := by
  cases effect_of_step hstep with
  | called filePath optionsKey => exact h.called filePath optionsKey
  | resolving hstate hturn =>
    exact h.setState_unregistered hstate rfl rfl (fun hno => by cases hno)
      (h.registered_before hturn)
  | keyed hget hstate hturn hkey =>
    have hi := hstate ▸ state?_of_call hget
    exact h.register hi rfl (h.registered_before hturn) (h.unregistered_after hi rfl) _
  | resolved hget hstate hkey =>
    have hi := hstate ▸ state?_of_call hget
    exact h.register hi rfl (h.registered_before_resolving hi) (h.unregistered_after hi rfl) _
  | rejected message hstate =>
    exact h.setState_unregistered hstate rfl rfl (fun hno => by cases hno)
      (h.registered_before_resolving hstate)
  | started hstate hfree => exact h.start hstate hfree
  | settled threw hstate => exact h.finish hstate threw
  | chained hget hstate hnot hfree =>
    have hi := hstate ▸ state?_of_call hget
    exact h.chain ⟨isStarted_of_state hi, isSettled_of_state hi⟩
  | changed fileSystem => exact ⟨h.begun, h.table, h.behind, h.chained, h.started⟩

theorem ordered_initial (fileSystem : FS) : Ordered (QueueSystem.initial fileSystem) := by
  have hnone : ∀ j, (QueueSystem.initial fileSystem).state? j = none := fun j => rfl
  refine ⟨fun i j state _ hj => ?_, fun key i => ?_, fun j r hr => ?_, fun j hj => ?_,
    fun j r hr => ?_⟩
  · cases hj
  · simp [QueueSystem.initial, key?, registration?, state?]
  · cases hr
  · cases hj
  · cases hr

end BeauPi.Tools
