import BeauPi.Agents.Pool
import BeauPi.Machine.Runs

/-!
# The agent pool: no slot is lost or given out twice

A slot that was handed to a waiter may come back at once, because the signal of the
waiter fired or the pool was disposed in the meantime, and `release` passes over waiters
whose signal has fired.  None of this loses a slot or a waiter.

* `Live` — a call that still waits and whose signal has not fired.
* `Sound` — what holds of the slots and of the queue in every state.
* `InOrder` — a step gives slots to no call while an older live one waits.
* `Consistent`, `SlotInvariant` — the invariant, and how the loop of `release` restores it.
* `slots_neither_lost_nor_oversubscribed` — **every run is sound and serves its waiters
  in order**.
-/

namespace BeauPi.Agents

open Machine List SlotSystem
open SlotSystem (state? initial)

variable {s t u : SlotSystem} {queue : List Nat}

/-! ## What is promised -/

/-- The call waits for a slot and its signal has not fired. -/
def Live (s : SlotSystem) (call : Nat) : Prop :=
  s.state? call = some .waiting ∧ s.isAborted call = false

/-- The slot a call was given. -/
def slotOf (s : SlotSystem) (call : Nat) : Option Nat := (s.state? call).bind CallState.slot?

/-- Slots and queue of a single state. -/
structure Sound (s : SlotSystem) : Prop where
  /-- the count is the number of callbacks that were not called yet -/
  activeCount_eq : s.pool.activeCount = s.slots.count false
  activeCount_le : s.pool.activeCount ≤ s.pool.maxConcurrency
  /-- a call that waits is in the queue, and the queue holds nothing else -/
  mem_waiters : ∀ call, call ∈ s.pool.waiters ↔ s.state? call = some .waiting
  /-- live calls wait only while every slot is taken -/
  full_of_live : ∀ call, Live s call → s.pool.activeCount = s.pool.maxConcurrency
  /-- once every slot that a call was given is released, all slots are free and no live
  call is left -/
  drained : (∀ call slot, slotOf s call = some slot → s.slots[slot]? = some true) →
    s.pool.activeCount = 0 ∧ ∀ call, ¬Live s call

/-- A step gives a slot to a call only if no older call is live. -/
def InOrder (s t : SlotSystem) : Prop :=
  ∀ call, (slotOf t call).isSome → slotOf s call = none → ∀ older < call, ¬Live s older

/-! ## Looking at calls -/

theorem state?_settle (s : SlotSystem) (call other : Nat) (state : CallState) :
    (s.settle call state).state? other =
      if call = other then (s.state? other).map fun _ => state else s.state? other := by
  unfold state? SlotSystem.settle
  rw [getElem?_modify]
  by_cases h : call = other <;> cases s.calls[other]? <;> simp [h]

@[simp] theorem isAborted_settle (s : SlotSystem) (call other : Nat) (state : CallState) :
    (s.settle call state).isAborted other = s.isAborted other := by
  unfold isAborted SlotSystem.settle
  rw [getElem?_modify]
  by_cases h : call = other <;> cases s.calls[other]? <;> simp [h] <;> rfl

variable {call : Nat}

theorem state?_settle_ne {other : Nat} (state : CallState) (h : call ≠ other) :
    (s.settle call state).state? other = s.state? other := by
  rw [state?_settle, if_neg h]

theorem state?_settle_self {before : CallState} (state : CallState)
    (h : s.state? call = some before) : (s.settle call state).state? call = some state := by
  rw [state?_settle, if_pos rfl, h, Option.map_some]

/-- A call that goes over to a state without a slot changes no other slot. -/
theorem slotOf_settle_rejected (s : SlotSystem) (call other : Nat) (error : AcquireError) :
    slotOf (s.settle call (.rejected error)) other =
      if call = other then none else slotOf s other := by
  unfold slotOf
  rw [state?_settle]
  by_cases h : call = other
  · rw [if_pos h, if_pos h]
    cases s.state? other <;> rfl
  · rw [if_neg h, if_neg h]

/-- Whether a call is live depends on the calls and the signals only. -/
theorem live_congr (hcalls : t.calls = s.calls) (haborted : t.aborted = s.aborted) :
    Live t call ↔ Live s call := by
  unfold Live state? isAborted signalAborted
  rw [hcalls, haborted]

theorem slotOf_congr (hcalls : t.calls = s.calls) (call : Nat) : slotOf t call = slotOf s call := by
  unfold slotOf state?
  rw [hcalls]

/-! ## Steps that keep the order -/

/-- A step that gives no slot away keeps the order. -/
theorem InOrder.of_slots (h : ∀ call slot, slotOf t call = some slot → slotOf s call = some slot) :
    InOrder s t := by
  intro call hcall hnone
  obtain ⟨slot, hslot⟩ := Option.isSome_iff_exists.1 hcall
  rw [h call slot hslot] at hnone
  cases hnone

/-- Changes that leave the calls alone do not matter for the order. -/
theorem InOrder.congr_left (hcalls : t.calls = s.calls) (haborted : t.aborted = s.aborted)
    (h : InOrder t u) : InOrder s u := by
  intro call hcall hnone older holder hlive
  exact h call hcall (slotOf_congr hcalls call ▸ hnone) older holder
    ((live_congr hcalls haborted).2 hlive)

/-- Rejecting a call afterwards gives no slot away. -/
theorem InOrder.settle_rejected (h : InOrder s t) (call : Nat) (error : AcquireError) :
    InOrder s (t.settle call (.rejected error)) := by
  intro other hother hnone
  rw [slotOf_settle_rejected] at hother
  by_cases heq : call = other
  · rw [if_pos heq] at hother
    cases hother
  · rw [if_neg heq] at hother
    exact h other hother hnone

/-- Rejecting a call whose signal has fired beforehand passes over no live call. -/
theorem InOrder.of_settle_rejected {error : AcquireError} (haborted : s.isAborted call = true)
    (h : InOrder (s.settle call (.rejected error)) t) :
    InOrder s t := by
  intro other hother hnone older holder hlive
  have hne : call ≠ older := by
    rintro rfl
    exact absurd (haborted.symm.trans hlive.2) (by simp)
  refine h other hother ?_ older holder ⟨?_, ?_⟩
  · rw [slotOf_settle_rejected]
    split <;> first | rfl | exact hnone
  · rw [state?_settle_ne _ hne]
    exact hlive.1
  · rw [isAborted_settle]
    exact hlive.2

/-! ## The invariant -/

/-- Slots and calls fit together, with `queue` for the waiters. -/
structure Consistent (s : SlotSystem) (queue : List Nat) : Prop where
  maxConcurrency_pos : 0 < s.pool.maxConcurrency
  activeCount_eq : s.pool.activeCount = s.slots.count false
  activeCount_le : s.pool.activeCount ≤ s.pool.maxConcurrency
  mem_queue : ∀ call, call ∈ queue ↔ s.state? call = some .waiting
  sorted : queue.Pairwise (· < ·)
  /-- a slot that is not released was given to some call -/
  owned : ∀ slot : Nat, s.slots[slot]? = some false → ∃ call, slotOf s call = some slot

/-- The invariant of the system: a queue stands for a pool without a free slot. -/
structure SlotInvariant (s : SlotSystem) : Prop where
  consistent : Consistent s s.pool.waiters
  full : s.pool.waiters ≠ [] → s.pool.activeCount = s.pool.maxConcurrency

/-- A waiter is a call that has been made. -/
theorem Consistent.lt_length (h : Consistent s queue) (hmem : call ∈ queue) :
    call < s.calls.length := by
  have hstate := (h.mem_queue call).1 hmem
  unfold state? at hstate
  obtain ⟨c, hc, -⟩ := Option.map_eq_some_iff.1 hstate
  exact (List.getElem?_eq_some_iff.1 hc).1

/-- If no given slot is unreleased, there is no unreleased slot at all. -/
theorem Consistent.count_eq_zero (h : Consistent s queue)
    (hreleased : ∀ call slot, slotOf s call = some slot → s.slots[slot]? = some true) :
    s.slots.count false = 0 := by
  rw [List.count_eq_zero]
  intro hmem
  obtain ⟨slot, hslot⟩ := List.mem_iff_getElem?.1 hmem
  obtain ⟨call, hcall⟩ := h.owned slot hslot
  rw [hreleased call slot hcall] at hslot
  cases hslot

/-- The invariant is enough. -/
theorem SlotInvariant.sound (h : SlotInvariant s) : Sound s where
  activeCount_eq := h.consistent.activeCount_eq
  activeCount_le := h.consistent.activeCount_le
  mem_waiters := h.consistent.mem_queue
  full_of_live := by
    intro call hlive
    have hmem := (h.consistent.mem_queue call).2 hlive.1
    exact h.full (ne_nil_of_mem hmem)
  drained := by
    intro hreleased
    have hzero : s.pool.activeCount = 0 :=
      h.consistent.activeCount_eq.trans (h.consistent.count_eq_zero hreleased)
    refine ⟨hzero, ?_⟩
    intro call hlive
    have hmem := (h.consistent.mem_queue call).2 hlive.1
    have hfull := h.full (ne_nil_of_mem hmem)
    have hpos := h.consistent.maxConcurrency_pos
    omega

/-! ## The loop of `release` -/

/-- Rejecting a call that has no unreleased slot takes it out of the queue. -/
theorem Consistent.settle_rejected {rest : List Nat} (h : Consistent s queue) (error : AcquireError)
    (hslot : ∀ slot, slotOf s call = some slot → s.slots[slot]? ≠ some false)
    (hrest : ∀ other, other ∈ rest ↔ other ∈ queue ∧ other ≠ call)
    (hsorted : rest.Pairwise (· < ·)) :
    Consistent (s.settle call (.rejected error)) rest where
  maxConcurrency_pos := h.maxConcurrency_pos
  activeCount_eq := h.activeCount_eq
  activeCount_le := h.activeCount_le
  mem_queue := by
    intro other
    rw [hrest other, h.mem_queue other, state?_settle]
    by_cases heq : call = other
    · cases s.state? other <;> simp [heq]
    · simp [heq, Ne.symm heq]
  sorted := hsorted
  owned := by
    intro slot hfalse
    obtain ⟨owner, howner⟩ := h.owned slot hfalse
    refine ⟨owner, ?_⟩
    have hne : call ≠ owner := by
      rintro rfl
      exact hslot slot howner hfalse
    rw [slotOf_settle_rejected, if_neg hne]
    exact howner

variable {waiter : Nat}

/-- A waiter was given no slot. -/
theorem Consistent.slotOf_waiter (h : Consistent s queue) (hmem : waiter ∈ queue) :
    slotOf s waiter = none := by
  rw [slotOf, (h.mem_queue waiter).1 hmem]
  rfl

/-- What is left of a sorted queue without its first waiter. -/
theorem Consistent.mem_tail (h : Consistent s (waiter :: queue)) (other : Nat) :
    other ∈ queue ↔ other ∈ waiter :: queue ∧ other ≠ waiter := by
  constructor
  · intro hmem
    exact ⟨mem_cons_of_mem _ hmem, ((pairwise_cons.1 h.sorted).1 other hmem).ne'⟩
  · rintro ⟨hmem, hne⟩
    exact (mem_cons.1 hmem).resolve_left hne

/-- Rejecting the oldest waiter. -/
theorem Consistent.settle_head (h : Consistent s (waiter :: queue)) (error : AcquireError) :
    Consistent (s.settle waiter (.rejected error)) queue := by
  refine h.settle_rejected error ?_ h.mem_tail h.sorted.of_cons
  intro slot hslot
  rw [h.slotOf_waiter (mem_cons_self ..)] at hslot
  cases hslot

/-- Giving a new slot to a call that has none. -/
theorem Consistent.claimed {rest : List Nat} (h : Consistent s queue) (call : Nat)
    (hfree : s.pool.activeCount < s.pool.maxConcurrency)
    (hmax : t.pool.maxConcurrency = s.pool.maxConcurrency)
    (hcount : t.pool.activeCount = s.pool.activeCount + 1)
    (hslots : t.slots = s.slots ++ [false])
    (hbefore : slotOf s call = none) (hafter : slotOf t call = some s.slots.length)
    (hothers : ∀ other, other ≠ call → t.state? other = s.state? other)
    (hrest : ∀ other, other ∈ rest ↔ other ∈ queue ∧ other ≠ call)
    (hsorted : rest.Pairwise (· < ·)) : Consistent t rest where
  maxConcurrency_pos := hmax ▸ h.maxConcurrency_pos
  activeCount_eq := by
    rw [hcount, hslots, count_append, h.activeCount_eq]
    rfl
  activeCount_le := by omega
  mem_queue := by
    intro other
    by_cases heq : other = call
    · subst heq
      have hnot : t.state? other ≠ some .waiting := by
        intro hwaiting
        rw [slotOf, hwaiting] at hafter
        cases hafter
      simp [hrest other, hnot]
    · rw [hothers other heq, ← h.mem_queue other, hrest other]
      simp [heq]
  sorted := hsorted
  owned := by
    intro slot hslot
    by_cases heq : slot = s.slots.length
    · exact ⟨call, heq ▸ hafter⟩
    · rw [hslots] at hslot
      have hlt : slot < s.slots.length := by
        have hlt := (List.getElem?_eq_some_iff.1 hslot).1
        rw [length_append, length_singleton] at hlt
        omega
      rw [getElem?_append_left hlt] at hslot
      obtain ⟨owner, howner⟩ := h.owned slot hslot
      refine ⟨owner, ?_⟩
      have hne : owner ≠ call := by
        rintro rfl
        rw [hbefore] at howner
        cases howner
      rw [slotOf, hothers owner hne]
      exact howner

/-- The oldest waiter gets a slot. -/
theorem Consistent.claimSlot_head (h : Consistent s (waiter :: queue))
    (hfree : s.pool.activeCount < s.pool.maxConcurrency) :
    Consistent (s.claimSlot.1.settle waiter (.granted s.slots.length)) queue := by
  have hwaiting := (h.mem_queue waiter).1 (mem_cons_self ..)
  refine h.claimed waiter hfree rfl rfl rfl (h.slotOf_waiter (mem_cons_self ..)) ?_ ?_
    h.mem_tail h.sorted.of_cons
  · have hclaimed : s.claimSlot.1.state? waiter = some .waiting := hwaiting
    rw [slotOf, state?_settle_self _ hclaimed]
    rfl
  · intro other hne
    exact state?_settle_ne _ (Ne.symm hne)

/-- The oldest waiter gets a slot before any other. -/
theorem Consistent.inOrder_head (h : Consistent s (waiter :: queue)) (state : CallState)
    (hcalls : t.calls = s.calls) : InOrder s (t.settle waiter state) := by
  intro call hcall hnone older holder hlive
  have hhead : call = waiter := by
    by_contra hne
    have hsame : slotOf (t.settle waiter state) call = slotOf s call := by
      rw [slotOf, state?_settle_ne _ (Ne.symm hne)]
      exact slotOf_congr hcalls call
    rw [hsame, hnone] at hcall
    cases hcall
  subst hhead
  rcases mem_cons.1 ((h.mem_queue older).2 hlive.1) with heq | hmem
  · omega
  · have hlt := (pairwise_cons.1 h.sorted).1 older hmem
    omega

/-- **The loop.**  With one slot free, the loop of `release` restores the invariant and
serves the waiters in order. -/
theorem serve_spec : ∀ (queue : List Nat) (s : SlotSystem), Consistent s queue →
    s.pool.activeCount < s.pool.maxConcurrency →
    (queue ≠ [] → s.pool.activeCount + 1 = s.pool.maxConcurrency) →
    SlotInvariant (s.serve queue) ∧ InOrder s (s.serve queue) := by
  intro queue
  induction queue with
  | nil =>
    intro s h _ _
    refine ⟨⟨⟨h.maxConcurrency_pos, h.activeCount_eq, h.activeCount_le, h.mem_queue, h.sorted,
      h.owned⟩, fun hne => absurd rfl hne⟩, ?_⟩
    exact .of_slots fun _ _ hslot => hslot
  | cons waiter queue ih =>
    intro s h hfree hone
    rw [serve, if_pos hfree]
    by_cases haborted : s.isAborted waiter = true
    · -- the waiter is passed over
      rw [if_pos haborted]
      obtain ⟨hinv, horder⟩ := ih (s.settle waiter (.rejected .aborted)) (h.settle_head _) hfree
        fun _ => hone (cons_ne_nil _ _)
      exact ⟨hinv, horder.of_settle_rejected haborted⟩
    · -- the waiter gets the free slot
      rw [if_neg haborted]
      have hgranted := h.claimSlot_head hfree
      refine ⟨⟨⟨hgranted.maxConcurrency_pos, hgranted.activeCount_eq, hgranted.activeCount_le,
        hgranted.mem_queue, hgranted.sorted, hgranted.owned⟩, ?_⟩, ?_⟩
      · intro _
        exact hone (cons_ne_nil _ _)
      · exact h.inOrder_head _ rfl

/-! ## The steps -/

/-- Setting the flag of an unreleased slot leaves one unreleased slot fewer. -/
theorem count_set_true : ∀ (slots : List Bool) (slot : Nat), slots[slot]? = some false →
    (slots.set slot true).count false + 1 = slots.count false := by
  intro slots
  induction slots with
  | nil => intro slot h; simp at h
  | cons released slots ih =>
    intro slot h
    cases slot with
    | zero => simp at h; simp [h]
    | succ slot =>
      rw [getElem?_cons_succ] at h
      have hrest := ih slot h
      rw [set_cons_succ, count_cons, count_cons]
      omega

/-- A callback releases its slot at most once. -/
theorem releaseCallback_spec (h : SlotInvariant s) (slot : Nat) :
    SlotInvariant (s.releaseCallback slot) ∧ InOrder s (s.releaseCallback slot) := by
  unfold releaseCallback
  by_cases hslot : s.slots[slot]? = some false
  · rw [if_pos hslot]
    have hcount := count_set_true s.slots slot hslot
    have hactive := h.consistent.activeCount_eq
    have hle := h.consistent.activeCount_le
    have hfull := h.full
    let freed : SlotSystem := { s with
      slots := s.slots.set slot true
      pool := { s.pool with activeCount := s.pool.activeCount - 1 } }
    have hfreed : Consistent freed s.pool.waiters := {
      maxConcurrency_pos := h.consistent.maxConcurrency_pos
      activeCount_eq := by show s.pool.activeCount - 1 = (s.slots.set slot true).count false; omega
      activeCount_le := by show s.pool.activeCount - 1 ≤ s.pool.maxConcurrency; omega
      mem_queue := h.consistent.mem_queue
      sorted := h.consistent.sorted
      owned := by
        intro other hother
        refine h.consistent.owned other ?_
        have hset : (s.slots.set slot true)[other]? = some false := hother
        rw [getElem?_set] at hset
        by_cases heq : slot = other
        · simp [heq] at hset
        · rwa [if_neg heq] at hset }
    have hfree : freed.pool.activeCount < freed.pool.maxConcurrency := by
      show s.pool.activeCount - 1 < s.pool.maxConcurrency
      omega
    have hone : s.pool.waiters ≠ [] →
        freed.pool.activeCount + 1 = freed.pool.maxConcurrency := by
      intro hne
      show s.pool.activeCount - 1 + 1 = s.pool.maxConcurrency
      have := hfull hne
      omega
    obtain ⟨hinv, horder⟩ := serve_spec s.pool.waiters freed hfreed hfree hone
    exact ⟨hinv, horder.congr_left rfl rfl⟩
  · rw [if_neg hslot]
    exact ⟨h, .of_slots fun _ _ hslot => hslot⟩

/-- The loop leaves the old callbacks and the calls that do not wait alone. -/
theorem serve_frame : ∀ (queue : List Nat) (s : SlotSystem),
    (∀ slot < s.slots.length, (s.serve queue).slots[slot]? = s.slots[slot]?) ∧
      ∀ call, call ∉ queue → (s.serve queue).state? call = s.state? call := by
  intro queue
  induction queue with
  | nil => intro s; exact ⟨fun _ _ => rfl, fun _ _ => rfl⟩
  | cons waiter queue ih =>
    intro s
    unfold serve
    by_cases hfree : s.pool.activeCount < s.pool.maxConcurrency
    · rw [if_pos hfree]
      by_cases haborted : s.isAborted waiter = true
      · rw [if_pos haborted]
        obtain ⟨hslots, hstates⟩ := ih (s.settle waiter (.rejected .aborted))
        refine ⟨hslots, ?_⟩
        intro call hcall
        rw [mem_cons, not_or] at hcall
        rw [hstates call hcall.2, state?_settle_ne _ (Ne.symm hcall.1)]
      · rw [if_neg haborted]
        refine ⟨fun slot hslot => getElem?_append_left hslot, ?_⟩
        intro call hcall
        rw [mem_cons, not_or] at hcall
        exact state?_settle_ne _ (Ne.symm hcall.1)
    · rw [if_neg hfree]
      exact ⟨fun _ _ => rfl, fun _ _ => rfl⟩

/-- A callback that was called has released its slot. -/
theorem releaseCallback_slots (s : SlotSystem) (slot : Nat) :
    (s.releaseCallback slot).slots[slot]? ≠ some false := by
  unfold releaseCallback
  by_cases hslot : s.slots[slot]? = some false
  · have hlt : slot < s.slots.length := (List.getElem?_eq_some_iff.1 hslot).1
    rw [if_pos hslot, SlotSystem.release, (serve_frame _ _).1 slot (by simpa using hlt)]
    simp [hlt]
  · rwa [if_neg hslot]

theorem releaseCallback_state? (h : Consistent s s.pool.waiters) (slot call : Nat)
    (hcall : s.state? call ≠ some .waiting) :
    (s.releaseCallback slot).state? call = s.state? call := by
  unfold releaseCallback
  by_cases hslot : s.slots[slot]? = some false
  · rw [if_pos hslot, SlotSystem.release]
    refine (serve_frame _ _).2 call ?_
    exact fun hmem => hcall ((h.mem_queue call).1 hmem)
  · rw [if_neg hslot]

variable {slot : Nat}

/-- A continuation that finds the pool disposed or its signal fired passes its slot on. -/
theorem giveBack_spec (h : SlotInvariant s) (hstate : s.state? call = some (.granted slot))
    (error : AcquireError) :
    SlotInvariant ((s.releaseCallback slot).settle call (.rejected error)) ∧
      InOrder s ((s.releaseCallback slot).settle call (.rejected error)) := by
  obtain ⟨hinv, horder⟩ := releaseCallback_spec h slot
  have hsame := releaseCallback_state? h.consistent slot call (by rw [hstate]; simp)
  refine ⟨⟨?_, hinv.full⟩, horder.settle_rejected call error⟩
  refine hinv.consistent.settle_rejected error ?_ ?_ hinv.consistent.sorted
  · intro other hother
    rw [slotOf, hsame, hstate] at hother
    cases hother
    exact releaseCallback_slots s slot
  · intro other
    have hnot : call ∉ (s.releaseCallback slot).pool.waiters := by
      rw [hinv.consistent.mem_queue, hsame, hstate]
      simp
    exact ⟨fun hmem => ⟨hmem, fun heq => hnot (heq ▸ hmem)⟩, fun hmem => hmem.1⟩

/-- A continuation that finds nothing changed hands its slot to the caller. -/
theorem takeOver_spec (h : SlotInvariant s) (hstate : s.state? call = some (.granted slot)) :
    SlotInvariant (s.settle call (.holding slot)) ∧ InOrder s (s.settle call (.holding slot)) := by
  have hslots : ∀ other, slotOf (s.settle call (.holding slot)) other = slotOf s other := by
    intro other
    by_cases heq : call = other
    · subst heq
      rw [slotOf, slotOf, state?_settle_self _ hstate, hstate]
      rfl
    · rw [slotOf, state?_settle_ne _ heq]
      rfl
  refine ⟨⟨?_, h.full⟩, .of_slots fun other _ hslot => (hslots other).symm.trans hslot⟩
  · exact {
      maxConcurrency_pos := h.consistent.maxConcurrency_pos
      activeCount_eq := h.consistent.activeCount_eq
      activeCount_le := h.consistent.activeCount_le
      mem_queue := by
        intro other
        refine (h.consistent.mem_queue other).trans ?_
        by_cases heq : call = other
        · subst heq
          rw [state?_settle_self _ hstate, hstate]
          simp
        · rw [state?_settle_ne _ heq]
      sorted := h.consistent.sorted
      owned := by
        intro other hother
        obtain ⟨owner, howner⟩ := h.consistent.owned other hother
        exact ⟨owner, (hslots owner).trans howner⟩ }

theorem resume_spec (h : SlotInvariant s) (hstate : s.state? call = some (.granted slot)) :
    SlotInvariant (s.resume call slot) ∧ InOrder s (s.resume call slot) := by
  unfold SlotSystem.resume
  by_cases hdisposed : s.pool.disposed = true
  · rw [if_pos hdisposed]
    exact giveBack_spec h hstate .disposed
  · rw [if_neg hdisposed]
    by_cases haborted : s.isAborted call = true
    · rw [if_pos haborted]
      exact giveBack_spec h hstate .aborted
    · rw [if_neg haborted]
      exact takeOver_spec h hstate

/-- The listener takes its waiter out of the queue. -/
theorem onAbort_spec (h : SlotInvariant s) (hmem : call ∈ s.pool.waiters) :
    SlotInvariant (s.onAbort call) ∧ InOrder s (s.onAbort call) := by
  have hnodup : s.pool.waiters.Nodup := h.consistent.sorted.imp fun hlt => hlt.ne
  have hkept : Consistent { s with pool := { s.pool with waiters := s.pool.waiters.erase call } }
      s.pool.waiters := ⟨h.consistent.maxConcurrency_pos, h.consistent.activeCount_eq,
    h.consistent.activeCount_le, h.consistent.mem_queue, h.consistent.sorted, h.consistent.owned⟩
  refine ⟨⟨?_, ?_⟩, ?_⟩
  · refine hkept.settle_rejected .aborted ?_ ?_ (h.consistent.sorted.sublist erase_sublist)
    · intro slot hslot
      rw [hkept.slotOf_waiter hmem] at hslot
      cases hslot
    · intro other
      exact hnodup.mem_erase_iff.trans and_comm
  · intro _
    exact h.full (ne_nil_of_mem hmem)
  · exact InOrder.settle_rejected (.of_slots fun _ _ hslot => hslot) call .aborted

/-- Rejecting a whole queue empties it and gives no slot away. -/
theorem rejectAll_spec (error : AcquireError) : ∀ (queue : List Nat) (s : SlotSystem),
    Consistent s queue →
    let t := queue.foldl (fun t waiter => t.settle waiter (.rejected error)) s
    Consistent t [] ∧ t.pool = s.pool ∧
      ∀ call slot, slotOf t call = some slot → slotOf s call = some slot := by
  intro queue
  induction queue with
  | nil => intro s h; exact ⟨h, rfl, fun _ _ hslot => hslot⟩
  | cons waiter queue ih =>
    intro s h
    obtain ⟨hempty, hpool, hslots⟩ := ih (s.settle waiter (.rejected error)) (h.settle_head error)
    refine ⟨hempty, hpool, ?_⟩
    intro call slot hslot
    have hsettled := hslots call slot hslot
    rw [slotOf_settle_rejected] at hsettled
    by_cases heq : waiter = call
    · rw [if_pos heq] at hsettled
      cases hsettled
    · rwa [if_neg heq] at hsettled

theorem dispose_spec (h : SlotInvariant s) : SlotInvariant s.dispose ∧ InOrder s s.dispose := by
  unfold dispose
  by_cases hdisposed : s.pool.disposed = true
  · rw [if_pos hdisposed]
    exact ⟨h, .of_slots fun _ _ hslot => hslot⟩
  · rw [if_neg hdisposed]
    have hkept : Consistent { s with pool := { s.pool with disposed := true, waiters := [] } }
        s.pool.waiters := ⟨h.consistent.maxConcurrency_pos, h.consistent.activeCount_eq,
      h.consistent.activeCount_le, h.consistent.mem_queue, h.consistent.sorted,
      h.consistent.owned⟩
    obtain ⟨hempty, hpool, hslots⟩ := rejectAll_spec .disposed _ _ hkept
    refine ⟨⟨?_, ?_⟩, .of_slots hslots⟩
    · rw [hpool]
      exact hempty
    · rw [hpool]
      exact fun hne => absurd rfl hne

/-! ### `acquire` -/

/-- The calls after one more call was made. -/
theorem state?_append {call : Call} (hcalls : t.calls = s.calls ++ [call]) (other : Nat) :
    t.state? other = if other = s.calls.length then some call.state else s.state? other := by
  unfold state?
  rw [hcalls, getElem?_append]
  by_cases heq : other = s.calls.length
  · simp [heq]
  · by_cases hlt : other < s.calls.length
    · simp [heq, hlt]
    · have hpast : [call][other - s.calls.length]? = none :=
        getElem?_eq_none (by simp; omega)
      simp [heq, hlt, hpast]

theorem state?_length (s : SlotSystem) : s.state? s.calls.length = none := by
  simp [state?]

/-- A call that claims no slot: it waits at the end of the queue or is rejected. -/
theorem acquire_without_slot (h : SlotInvariant s) {call : Call} (hnone : call.state.slot? = none)
    (hcalls : t.calls = s.calls ++ [call]) (hslots : t.slots = s.slots)
    (hmax : t.pool.maxConcurrency = s.pool.maxConcurrency)
    (hcount : t.pool.activeCount = s.pool.activeCount)
    (hwaiters : t.pool.waiters =
      s.pool.waiters ++ if call.state = .waiting then [s.calls.length] else [])
    (hfull : call.state = .waiting → s.pool.activeCount = s.pool.maxConcurrency) :
    SlotInvariant t ∧ InOrder s t := by
  have hstates := state?_append hcalls
  have hkept : ∀ other, slotOf t other = slotOf s other := by
    intro other
    rw [slotOf, hstates other]
    by_cases heq : other = s.calls.length
    · rw [if_pos heq, slotOf, heq, state?_length]
      exact hnone
    · rw [if_neg heq]
      rfl
  have hlt : ∀ waiter ∈ s.pool.waiters, waiter < s.calls.length :=
    fun waiter hmem => h.consistent.lt_length hmem
  refine ⟨⟨?_, ?_⟩, .of_slots fun other _ hslot => (hkept other).symm.trans hslot⟩
  · exact {
      maxConcurrency_pos := hmax ▸ h.consistent.maxConcurrency_pos
      activeCount_eq := by rw [hcount, hslots]; exact h.consistent.activeCount_eq
      activeCount_le := by rw [hcount, hmax]; exact h.consistent.activeCount_le
      mem_queue := by
        intro other
        rw [hwaiters, mem_append, h.consistent.mem_queue other, hstates other]
        by_cases heq : other = s.calls.length
        · subst heq
          rw [state?_length]
          by_cases hwaiting : call.state = .waiting <;> simp [hwaiting]
        · by_cases hwaiting : call.state = .waiting <;> simp [hwaiting, heq]
      sorted := by
        rw [hwaiters, pairwise_append]
        refine ⟨h.consistent.sorted, ?_, ?_⟩
        · split <;> simp
        · intro waiter hmem other hother
          split at hother
          · rw [mem_singleton] at hother
            exact hother ▸ hlt waiter hmem
          · cases hother
      owned := by
        intro slot hslot
        obtain ⟨owner, howner⟩ := h.consistent.owned slot (hslots ▸ hslot)
        exact ⟨owner, (hkept owner).trans howner⟩ }
  · intro hne
    rw [hcount, hmax]
    by_cases hwaiting : call.state = .waiting
    · exact hfull hwaiting
    · rw [hwaiters, if_neg hwaiting, append_nil] at hne
      exact h.full hne

/-- A call that finds a slot free: then nobody waits. -/
theorem acquire_with_slot (h : SlotInvariant s) (signal : Option Nat)
    (hfree : s.pool.activeCount < s.pool.maxConcurrency) :
    let t : SlotSystem := { s.claimSlot.1 with
      calls := s.calls ++ [⟨signal, .holding s.slots.length⟩] }
    SlotInvariant t ∧ InOrder s t := by
  intro t
  have hnobody : s.pool.waiters = [] := by
    by_contra hne
    exact absurd (h.full hne) hfree.ne
  have hstates := state?_append (t := t) (s := s) rfl
  refine ⟨⟨?_, fun hne => absurd hnobody hne⟩, ?_⟩
  · refine h.consistent.claimed s.calls.length hfree rfl rfl rfl ?_ ?_ ?_ ?_ h.consistent.sorted
    · rw [slotOf, state?_length]
      rfl
    · rw [slotOf, hstates, if_pos rfl]
      rfl
    · intro other hne
      rw [hstates, if_neg hne]
    · intro other
      exact ⟨fun hmem => ⟨hmem, (h.consistent.lt_length hmem).ne⟩, fun hmem => hmem.1⟩
  · intro call _ _ older _ hlive
    have hmem := (h.consistent.mem_queue older).2 hlive.1
    rw [hnobody] at hmem
    cases hmem

theorem acquire_spec (h : SlotInvariant s) (signal : Option Nat) :
    SlotInvariant (s.acquire signal) ∧ InOrder s (s.acquire signal) := by
  have hle := h.consistent.activeCount_le
  unfold acquire
  split
  · exact acquire_without_slot h rfl rfl rfl rfl rfl (by simp) (by simp)
  · split
    · exact acquire_without_slot h rfl rfl rfl rfl rfl (by simp) (by simp)
    · split
      · rename_i hfree
        exact acquire_with_slot h signal hfree
      · refine acquire_without_slot h rfl rfl rfl rfl rfl (by simp) fun _ => ?_
        omega

/-! ## Runs -/

/-- Every step keeps the invariant and serves in order. -/
theorem step_spec {event : Event} (h : SlotInvariant s) (hstep : step s event = some t) :
    SlotInvariant t ∧ InOrder s t := by
  cases event with
  | acquire signal => cases hstep; exact acquire_spec h signal
  | abort signal =>
    cases hstep
    exact ⟨⟨⟨h.consistent.maxConcurrency_pos, h.consistent.activeCount_eq,
      h.consistent.activeCount_le, h.consistent.mem_queue, h.consistent.sorted,
      h.consistent.owned⟩, h.full⟩, .of_slots fun _ _ hslot => hslot⟩
  | onAbort call =>
    simp only [step] at hstep
    split at hstep
    · rename_i hmem
      cases hstep
      exact onAbort_spec h hmem.1
    · cases hstep
  | resume call =>
    simp only [step] at hstep
    split at hstep
    · rename_i slot hstate
      cases hstep
      exact resume_spec h hstate
    · cases hstep
  | release call =>
    simp only [step] at hstep
    split at hstep
    · rename_i slot hstate
      cases hstep
      exact releaseCallback_spec h slot
    · cases hstep
  | dispose => cases hstep; exact dispose_spec h

theorem initial_invariant {pool : AgentPool} {maxConcurrency cpuCount : Option ℚ}
    (h : AgentPool.create maxConcurrency cpuCount = .ok pool) :
    SlotInvariant (.initial pool) := by
  obtain ⟨hpos, hwaiters, hcount⟩ := AgentPool.create_spec h
  refine ⟨⟨hpos, hcount, ?_, ?_, ?_, ?_⟩, ?_⟩
  · show pool.activeCount ≤ pool.maxConcurrency
    omega
  · intro call
    simp [initial, state?, hwaiters]
  · simp [initial, hwaiters]
  · intro slot hslot
    simp [initial] at hslot
  · simp [initial, hwaiters]

/-- **Slots are neither lost nor oversubscribed.**  Whatever the configuration of a pool
and whatever happens to it, its slots and its queue are sound before and after every step,
and every step serves the waiters in the order in which they came. -/
theorem slots_neither_lost_nor_oversubscribed (maxConcurrency cpuCount : Option ℚ)
    (pool : AgentPool) (h : AgentPool.create maxConcurrency cpuCount = .ok pool)
    (events : List Event) :
    Sound (.initial pool) ∧
      Along step (fun s _ t => InOrder s t ∧ Sound t) (.initial pool) events := by
  have hstart := initial_invariant h
  refine ⟨hstart.sound, ?_⟩
  refine along_of_invariant (I := SlotInvariant) ?_ events _ hstart (along_true events _)
  intro s event t hs hstep _
  obtain ⟨ht, horder⟩ := step_spec hs hstep
  exact ⟨⟨horder, ht.sound⟩, ht⟩

/-- A pool with one slot: the second call waits, its signal fires after its promise was
resolved, and the slot goes on to the third call. -/
def lateAbort : List Event :=
  [.acquire none, .acquire (some 0), .acquire none, .release 0, .abort 0, .resume 1, .resume 2,
    .release 2, .release 2]

/-- The one-slot pool of a machine with four processors. -/
def singleSlot : AgentPool := ⟨1, [], 0, 0, false⟩

/-- The general result at a run in which a slot comes back from a waiter. -/
theorem slots_neither_lost_nor_oversubscribed_lateAbort :
    AgentPool.create (some 2) (some 4) = .ok singleSlot ∧
      (runFrom step (.initial singleSlot) lateAbort).isSome ∧
      Along step (fun s _ t => InOrder s t ∧ Sound t) (.initial singleSlot) lateAbort := by
  have hcreate : AgentPool.create (some 2) (some 4) = .ok singleSlot := by decide
  exact ⟨hcreate, by decide,
    (slots_neither_lost_nor_oversubscribed (some 2) (some 4) singleSlot hcreate lateAbort).2⟩

end BeauPi.Agents
