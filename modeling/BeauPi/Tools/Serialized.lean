import Mathlib.Algebra.Order.BigOperators.Group.List
import Mathlib.Algebra.Order.Ring.Nat
import Mathlib.Algebra.GroupWithZero.Action.Defs
import BeauPi.Tools.MutationOrder

/-!
# Callbacks of one file run one after the other

* `NotBlocked`, `SoonQuiet` — a call waits only for `realpath` or for a callback that runs.
* `NoOverlap` — callbacks of one file do not run at the same time.
* `KeysTellFilesApart` — calls that are under way with different keys are about different files.
* `mutations_serialized` — **order and progress hold in every run, and callbacks of one file never
  overlap as long as the keys tell the files apart**.
-/

namespace BeauPi.Tools

open Machine List QueueSystem
open QueueSystem (key? registration?)

variable {FS File : Type} {s t : QueueSystem FS} {resolve : String → String} {i j : Nat}
  {before state : CallState} {r : Registration} {key : String}

/-! ## What is promised -/

/-- The file that the path of a call denotes now. -/
def QueueSystem.file? (s : QueueSystem FS) (fileAt : FS → String → File) (call : Nat) :
    Option File :=
  (s.calls[call]?).map fun c => fileAt s.fileSystem c.filePath

/-- Callbacks of calls whose paths denote the same file do not run at the same time. -/
def NoOverlap (fileAt : FS → String → File) (s : QueueSystem FS) : Prop :=
  ∀ i j, s.isRunning i = true → s.isRunning j = true → s.file? fileAt i = s.file? fileAt j → i = j

/-- The function can take no step by itself. -/
def Quiet (resolve : String → String) (s : QueueSystem FS) : Prop :=
  ∀ e : Event FS, e.isInternal = true → step resolve s e = none

/-- What a call that has not settled waits for when the function can take no step: its own or an
earlier call's `realpath`, its callback, or the callback of an earlier call of its key. -/
def NotBlocked (resolve : String → String) (s : QueueSystem FS) : Prop :=
  Quiet resolve s → ∀ i < s.calls.length, s.isSettled i = true ∨ s.isRunning i = true ∨
    (∃ j ≤ i, s.state? j = some .resolving) ∨
    ∃ j < i, s.key? j = s.key? i ∧ s.isRunning j = true

/-- The function takes at most two steps a call before it waits for something else. -/
def SoonQuiet (resolve : String → String) (s : QueueSystem FS) : Prop :=
  ∀ (es : List (Event FS)) (t : QueueSystem FS), (∀ e ∈ es, e.isInternal = true) →
    runFrom (step resolve) s es = some t → es.length ≤ 2 * s.calls.length

/-- No call that is under way under another key is about the file of the call. -/
def TellsApart (fileAt : FS → String → File) (s : QueueSystem FS) (call : Nat) (key : String) :
    Prop :=
  ∀ j < s.calls.length, s.isOutstanding j = true → s.key? j ≠ some key →
    s.file? fileAt j ≠ s.file? fileAt call

instance [DecidableEq File] (fileAt : FS → String → File) (s : QueueSystem FS) (call : Nat)
    (key : String) : Decidable (TellsApart fileAt s call key) :=
  inferInstanceAs (Decidable (∀ j < s.calls.length, _ → _ → _))

/-- The step keeps calls that are under way with different keys at different files: a key is given
to a call only if no call under way with another key is about the same file, and the file system
changes only in such a way that such calls stay apart. -/
def KeysTellFilesApart (resolve : String → String) (fileAt : FS → String → File)
    (s : QueueSystem FS) : Event FS → Prop
  | .begin i => ∀ c ∈ s.calls[i]?, ∀ key ∈ c.optionsKey, TellsApart fileAt s i key
  | .resolved i answer => ∀ c ∈ s.calls[i]?,
      ∀ key ∈ (getMutationQueueKey (resolve c.filePath) answer).toOption, TellsApart fileAt s i key
  | .change fileSystem => ∀ i < s.calls.length, s.isOutstanding i = true →
      ∀ key ∈ s.key? i, TellsApart fileAt { s with fileSystem := fileSystem } i key
  | .call _ _ | .start _ | .settle _ _ | .chain _ => True

instance [DecidableEq File] (resolve : String → String) (fileAt : FS → String → File)
    (s : QueueSystem FS) : (e : Event FS) → Decidable (KeysTellFilesApart resolve fileAt s e)
  | .begin i => inferInstanceAs (Decidable (∀ c ∈ s.calls[i]?, ∀ key ∈ c.optionsKey, _))
  | .resolved i _ => inferInstanceAs (Decidable (∀ c ∈ s.calls[i]?, ∀ key ∈ Except.toOption _, _))
  | .change _ => inferInstanceAs (Decidable (∀ i < s.calls.length, _ → ∀ key ∈ s.key? i, _))
  | .call _ _ => inferInstanceAs (Decidable True)
  | .start _ => inferInstanceAs (Decidable True)
  | .settle _ _ => inferInstanceAs (Decidable True)
  | .chain _ => inferInstanceAs (Decidable True)

/-! ## Progress -/

/-- A registration that could begin would begin. -/
theorem not_turn_of_quiet (hquiet : Quiet resolve s) {c : Call} (hget : s.calls[i]? = some c)
    (hc : c.state = .queued) : ¬(i = 0 ∨ s.isRegistered (i - 1) = true) := by
  intro hturn
  have hnone := hquiet (.begin i) rfl
  obtain ⟨filePath, optionsKey, state, chained⟩ := c
  subst hc
  simp only [step, hget, if_pos hturn] at hnone
  cases optionsKey <;> cases hnone

/-- A callback that could be called would be called. -/
theorem not_free_of_quiet (hquiet : Quiet resolve s) (hi : s.state? i = some (.waiting r)) :
    s.isFree r.currentQueue = false := by
  have hnone := hquiet (.start i) rfl
  simp only [step, hi] at hnone
  simpa using hnone

/-- A promise that could resolve would have resolved. -/
theorem Ordered.chained_of_quiet (h : Ordered s) (hquiet : Quiet resolve s)
    (hr : s.registration? i = some r) (hi : s.isSettled i = true) : s.isChained i = true := by
  have hfree := h.started i r hr (isStarted_of_settled hr hi)
  obtain ⟨state, hstate, hregistration⟩ := registration?_eq_some.1 hr
  obtain ⟨⟨filePath, optionsKey, state, chained⟩, hget, rfl⟩ := Option.map_eq_some_iff.1 hstate
  rw [isSettled_of_state hstate] at hi
  cases state with
  | finished q threw =>
    obtain rfl : q = r := Option.some.inj hregistration
    have hnone := hquiet (.chain i) rfl
    cases chained with
    | true => simp [isChained, hget]
    | false =>
      simp only [Tools.step, hget, if_pos hfree] at hnone
      cases hnone
  | rejected message => cases hregistration
  | _ => cases hi

/-- **What a call waits for when the function can take no step.** -/
theorem Ordered.notBlocked (h : Ordered s) : NotBlocked resolve s := by
  intro hquiet i hi
  induction i using Nat.strongRecOn with
  | ind i ih =>
    obtain ⟨c, hget⟩ : ∃ c, s.calls[i]? = some c := ⟨_, getElem?_eq_getElem hi⟩
    have hstate := state?_of_call hget
    cases hc : c.state with
    | queued =>
      -- the call before it is not registered, and waits for some `realpath`
      have hturn := not_turn_of_quiet hquiet hget hc
      have hnot : s.isRegistered (i - 1) = false := by simpa using fun hreg => hturn (.inr hreg)
      have hpos : 0 < i := Nat.pos_of_ne_zero fun hzero => hturn (.inl hzero)
      rcases ih (i - 1) (by omega) (by omega) with
        hsettled | hrunning | ⟨j, hj, hres⟩ | ⟨j, -, hkey, hrun⟩
      · rw [isRegistered_of_settled hsettled] at hnot
        cases hnot
      · obtain ⟨q, hq⟩ := exists_registration (Bool.and_eq_true_iff.1 hrunning).1
        rw [isRegistered_of_registration hq] at hnot
        cases hnot
      · exact .inr (.inr (.inl ⟨j, by omega, hres⟩))
      · obtain ⟨r, hr⟩ := exists_registration (Bool.and_eq_true_iff.1 hrun).1
        rw [key?, hr] at hkey
        obtain ⟨q, hq, -⟩ := key?_eq_some.1 hkey.symm
        rw [isRegistered_of_registration hq] at hnot
        cases hnot
    | resolving => exact .inr (.inr (.inl ⟨i, Nat.le_refl i, hc ▸ hstate⟩))
    | rejected | finished => exact .inl (by rw [isSettled_of_state hstate, hc]; rfl)
    | waiting r =>
      -- it stands behind a call that has not settled
      rw [hc] at hstate
      have hr : s.registration? i = some r := registration?_of_state hstate
      have hkeyi : s.key? i = some r.key := key?_eq_some.2 ⟨r, hr, rfl⟩
      have hfree := not_free_of_quiet hquiet hstate
      have hbehind := h.behind i r hr
      unfold StandsBehind at hbehind
      cases hqueue : r.currentQueue with
      | none =>
        rw [hqueue] at hfree
        cases hfree
      | some k =>
        rw [hqueue] at hbehind hfree
        obtain ⟨hki, hkeyk, -⟩ := hbehind
        obtain ⟨q, hq, -⟩ := key?_eq_some.1 hkeyk
        rcases ih k hki (by omega) with hsettled | hrunning | ⟨j, hj, hres⟩ | ⟨j, hj, hkey, hrun⟩
        · rw [show s.isFree (some k) = s.isChained k from rfl,
            h.chained_of_quiet hquiet hq hsettled] at hfree
          cases hfree
        · exact .inr (.inr (.inr ⟨k, hki, hkeyk.trans hkeyi.symm, hrunning⟩))
        · exact .inr (.inr (.inl ⟨j, by omega, hres⟩))
        · exact .inr (.inr (.inr ⟨j, by omega, by rw [hkey, hkeyk, hkeyi], hrun⟩))
    | running r =>
      refine .inr (.inl ?_)
      rw [isRunning, isStarted_of_state hstate, isSettled_of_state hstate, hc]
      rfl

/-- The steps a call still takes by itself before it waits for something else. -/
def Call.work (c : Call) : Nat :=
  match c.state with
  | .queued => 2
  | .waiting _ => 1
  | .finished _ _ => if c.chained then 0 else 1
  | .resolving | .rejected _ | .running _ => 0

/-- The steps the function still takes by itself. -/
def QueueSystem.work (s : QueueSystem FS) : Nat := (s.calls.map Call.work).sum

theorem work_le (s : QueueSystem FS) : s.work ≤ 2 * s.calls.length := by
  have hle : ∀ n ∈ s.calls.map Call.work, n ≤ 2 := by
    intro n hn
    obtain ⟨c, -, rfl⟩ := mem_map.1 hn
    unfold Call.work
    split
    · exact le_rfl
    · omega
    · split_ifs <;> omega
    · omega
    · omega
    · omega
  have hsum := sum_le_card_nsmul _ 2 hle
  rw [length_map, smul_eq_mul] at hsum
  rw [QueueSystem.work]
  omega

/-- Less work at one call is less work in all. -/
theorem sum_modify_lt {l : List Call} {c : Call} {f : Call → Call} (hget : l[i]? = some c)
    (h : (f c).work < c.work) : ((l.modify i f).map Call.work).sum < (l.map Call.work).sum := by
  induction l generalizing i with
  | nil => cases hget
  | cons x rest ih =>
    cases i with
    | zero =>
      obtain rfl := Option.some.inj hget
      simpa using h
    | succ i => simpa using ih hget

/-- An internal step takes work away. -/
theorem work_lt {e : Event FS} (he : e.isInternal = true) (hstep : step resolve s e = some t) :
    t.work < s.work ∧ t.calls.length = s.calls.length := by
  have hlower : ∀ {i : Nat} {before state : CallState}, s.state? i = some before →
      (∀ c : Call, c.state = before → ({ c with state := state } : Call).work < c.work) →
      (s.setState i state).work < s.work ∧ (s.setState i state).calls.length = s.calls.length := by
    intro i before state hi hlt
    obtain ⟨c, hget, rfl⟩ := Option.map_eq_some_iff.1 hi
    exact ⟨sum_modify_lt hget (hlt c rfl), length_setState i state⟩
  cases effect_of_step hstep with
  | resolving hstate | started hstate =>
    refine hlower hstate fun c hc => ?_
    simp [Call.work, hc]
  | keyed hget hstate hturn hkey =>
    refine hlower (hstate ▸ state?_of_call hget) fun c hc => ?_
    simp [Call.work, hc]
  | chained hget hstate hnot hfree =>
    refine ⟨sum_modify_lt hget ?_, length_modify ..⟩
    simp [Call.work, hstate, hnot]
  | _ => cases he

/-- The internal steps come to an end. -/
theorem soonQuiet (s : QueueSystem FS) : SoonQuiet resolve s := by
  intro es t hes hrun
  have hlength : ∀ (es : List (Event FS)) (s : QueueSystem FS), (∀ e ∈ es, e.isInternal = true) →
      runFrom (step resolve) s es = some t → es.length ≤ s.work := by
    intro es
    induction es with
    | nil => intro s _ _; exact Nat.zero_le _
    | cons e es ih =>
      intro s hes hrun
      rw [runFrom_cons] at hrun
      obtain ⟨u, hu, hrun⟩ := Option.bind_eq_some_iff.1 hrun
      have hlt := (work_lt (hes e mem_cons_self) hu).1
      have hle := ih u (fun e he => hes e (mem_cons_of_mem _ he)) hrun
      rw [length_cons]
      omega
  exact (hlength es s hes hrun).trans (work_le s)

/-! ## Callbacks of one file -/

theorem lt_length_of_outstanding (h : s.isOutstanding i = true) : i < s.calls.length := by
  obtain ⟨key, hkey⟩ := Option.isSome_iff_exists.1 (Bool.and_eq_true_iff.1 h).1
  obtain ⟨r, hr, -⟩ := Option.map_eq_some_iff.1 hkey
  obtain ⟨state, hstate, -⟩ := Option.bind_eq_some_iff.1 hr
  exact lt_length_of_state? hstate

@[simp] theorem file?_setState (fileAt : FS → String → File) (i : Nat) (state : CallState)
    (j : Nat) : (s.setState i state).file? fileAt j = s.file? fileAt j := by
  unfold QueueSystem.file?
  rw [QueueSystem.setState, getElem?_modify]
  by_cases hj : i = j <;> cases s.calls[j]? <;> simp [hj]

theorem file?_chain {fileAt : FS → String → File} (i j : Nat) :
    ({ s with calls := s.calls.modify i fun c => { c with chained := true } } :
      QueueSystem FS).file? fileAt j = s.file? fileAt j := by
  unfold QueueSystem.file?
  rw [getElem?_modify]
  by_cases hj : i = j <;> cases s.calls[j]? <;> simp [hj]

/-- Calls that are under way with different keys are about different files. -/
def FilesApart (fileAt : FS → String → File) (s : QueueSystem FS) : Prop :=
  ∀ i j, s.isOutstanding i = true → s.isOutstanding j = true → s.key? i ≠ s.key? j →
    s.file? fileAt i ≠ s.file? fileAt j

variable {fileAt : FS → String → File}

/-- Whatever keeps the keys and the files and starts no call keeps the files apart. -/
theorem FilesApart.of_subset (h : FilesApart fileAt s)
    (houtstanding : ∀ i, t.isOutstanding i = true → s.isOutstanding i = true)
    (hkey : ∀ i, t.isOutstanding i = true → t.key? i = s.key? i)
    (hfile : ∀ i, t.isOutstanding i = true → t.file? fileAt i = s.file? fileAt i) :
    FilesApart fileAt t := by
  intro i j hi hj hne
  rw [hfile i hi, hfile j hj]
  refine h i j (houtstanding i hi) (houtstanding j hj) ?_
  rwa [← hkey i hi, ← hkey j hj]

/-- A call that goes over to a state which is not outstanding, or was outstanding with the same
key, keeps the files apart. -/
theorem FilesApart.setState (h : FilesApart fileAt s) (hi : s.state? i = some before)
    (state : CallState)
    (hstate : state.registration?.isSome = true → state.isSettled = false →
      before.registration? = state.registration? ∧ before.isSettled = false) :
    FilesApart fileAt (s.setState i state) := by
  have hback : ∀ j, (s.setState i state).isOutstanding j = true →
      s.isOutstanding j = true ∧ (s.setState i state).key? j = s.key? j := by
    intro j hj
    unfold isOutstanding at hj ⊢
    rw [key?_setState hi, isSettled_setState hi] at hj
    rw [key?_setState hi]
    by_cases hji : j = i
    · subst hji
      simp only [if_true, Bool.and_eq_true, Option.isSome_map, Bool.not_eq_true'] at hj
      obtain ⟨hsame, hnot⟩ := hstate hj.1 hj.2
      rw [if_pos rfl, key?, registration?_of_state hi, isSettled_of_state hi, hnot,
        hsame]
      simp [hj.1]
    · simpa only [if_neg hji, and_true] using hj
  exact h.of_subset (fun j hj => (hback j hj).1) (fun j hj => (hback j hj).2)
    (fun j _ => file?_setState fileAt i state j)

/-- A call takes a key that tells its file apart. -/
theorem FilesApart.register (h : FilesApart fileAt s) (hi : s.state? i = some before)
    (hapart : TellsApart fileAt s i key) : FilesApart fileAt (s.register i key) := by
  have hkey : ∀ j, (s.register i key).key? j = if j = i then some key else s.key? j :=
    key?_setState hi (.waiting ⟨key, _⟩)
  have hfile : ∀ j, (s.register i key).file? fileAt j = s.file? fileAt j :=
    file?_setState fileAt i (.waiting ⟨key, _⟩)
  have hback : ∀ j, j ≠ i → (s.register i key).isOutstanding j = true →
      s.isOutstanding j = true := by
    intro j hji hj
    have hsettled : (s.register i key).isSettled j = s.isSettled j := by
      have := isSettled_setState hi (.waiting ⟨key, s.fileMutationQueues.get? key⟩) j
      rwa [if_neg hji] at this
    unfold isOutstanding at hj ⊢
    rwa [hkey, hsettled, if_neg hji] at hj
  intro j k hj hk hne
  rw [hkey, hkey] at hne
  rw [hfile, hfile]
  by_cases hji : j = i <;> by_cases hki : k = i
  · exact absurd (by rw [if_pos hji, if_pos hki]) hne
  · rw [if_pos hji, if_neg hki] at hne
    rw [hji]
    have hk := hback k hki hk
    exact (hapart k (lt_length_of_outstanding hk) hk hne.symm).symm
  · rw [if_neg hji, if_pos hki] at hne
    rw [hki]
    have hj := hback j hji hj
    exact hapart j (lt_length_of_outstanding hj) hj hne
  · rw [if_neg hji, if_neg hki] at hne
    exact h j k (hback j hji hj) (hback k hki hk) hne

/-- **A step whose key or change tells the files apart keeps them apart.** -/
theorem FilesApart.step (h : FilesApart fileAt s) {e : Event FS}
    (hmeets : KeysTellFilesApart resolve fileAt s e) (hstep : step resolve s e = some t) :
    FilesApart fileAt t := by
  cases effect_of_step hstep with
  | called filePath optionsKey =>
    have hstate := state?_called (s := s) ⟨filePath, optionsKey, .queued, false⟩ rfl
    have hold : ∀ j, (⟨s.fileMutationQueues, s.calls ++ [⟨filePath, optionsKey, .queued, false⟩],
        s.fileSystem⟩ : QueueSystem FS).isOutstanding j = true → j ≠ s.calls.length := by
      rintro j hj rfl
      simp only [isOutstanding, key?, registration?,
        hstate] at hj
      simp [CallState.registration?] at hj
    refine h.of_subset (fun j hj => ?_) (fun j hj => ?_) (fun j hj => ?_)
    · simpa only [isOutstanding, key?, registration?,
        QueueSystem.isSettled, hstate, if_neg (hold j hj)] using hj
    · simp only [key?, registration?, hstate, if_neg (hold j hj)]
    · have hlt : j < s.calls.length := by
        by_contra hge
        have hgt : s.calls.length + 1 ≤ j := by have := hold j hj; omega
        have hnone : (s.calls ++ [⟨filePath, optionsKey, .queued, false⟩])[j]? = none :=
          getElem?_eq_none (by simpa using hgt)
        simp only [isOutstanding, key?, registration?,
          QueueSystem.state?, hnone] at hj
        simp at hj
      simp only [QueueSystem.file?, getElem?_append_left hlt]
  | resolving hstate hturn => exact h.setState hstate _ (fun hno => by cases hno)
  | keyed hget hstate hturn hkey =>
    exact h.register (state?_of_call hget) (hmeets _ hget _ hkey)
  | resolved hget hstate hkey =>
    exact h.register (state?_of_call hget) (hmeets _ hget _ (by rw [hkey]; rfl))
  | rejected message hstate => exact h.setState hstate _ (fun hno => by cases hno)
  | started hstate hfree => exact h.setState hstate _ fun _ _ => ⟨rfl, rfl⟩
  | settled threw hstate =>
    exact h.setState hstate (.finished _ threw) fun _ hno => by cases hno
  | chained hget hstate hnot hfree =>
    refine h.of_subset (fun j hj => ?_) (fun j _ => ?_) (fun j _ => file?_chain _ j)
    · simpa only [isOutstanding, key?, registration?,
        QueueSystem.isSettled, state?_chain] using hj
    · simp only [key?, registration?, state?_chain]
  | changed fileSystem =>
    intro i j hi hj hne
    obtain ⟨key, hkey⟩ := Option.isSome_iff_exists.1 (Bool.and_eq_true_iff.1 hj).1
    exact hmeets j (lt_length_of_outstanding hj) hj key hkey i (lt_length_of_outstanding hi) hi
      fun hsame => hne (hsame.trans hkey.symm)

/-- A call whose callback runs is under way. -/
theorem isOutstanding_of_running (h : s.isRunning i = true) : s.isOutstanding i = true := by
  obtain ⟨hstarted, hnot⟩ := Bool.and_eq_true_iff.1 h
  obtain ⟨r, hr⟩ := exists_registration hstarted
  rw [isOutstanding, key?, hr, hnot]
  rfl

/-- Order within a key and different files for different keys leave no overlap. -/
theorem FilesApart.noOverlap (h : FilesApart fileAt s) (horder : InOrder s) :
    NoOverlap fileAt s := by
  -- two running callbacks have different keys
  have hlt : ∀ i j, i < j → s.isRunning i = true → s.isRunning j = true → s.key? i ≠ s.key? j := by
    intro i j hij hi hj hkey
    have hsettled := horder i j hij hkey (Bool.and_eq_true_iff.1 hj).1
    rw [isRunning, hsettled] at hi
    simp at hi
  intro i j hi hj hfile
  have hout := h i j (isOutstanding_of_running hi) (isOutstanding_of_running hj)
  rcases Nat.lt_trichotomy i j with hij | rfl | hji
  · exact absurd hfile (hout (hlt i j hij hi hj))
  · rfl
  · exact absurd hfile (hout (hlt j i hji hj hi).symm)

/-! ## The result -/

/-- **Mutations are serialized.**  In every state of every run the callbacks of one key run in the
order of the calls, a call waits only for `realpath` or for a callback that runs, and the table is
empty when nothing is under way; callbacks of one file do not overlap if the keys tell the files
apart at every step. -/
theorem mutations_serialized (fileAt : FS → String → File) {fileSystem : FS}
    {es : List (Event FS)}
    (hrun : runFrom (step resolve) (QueueSystem.initial fileSystem) es = some s) :
    InOrder s ∧ NotBlocked resolve s ∧ SoonQuiet resolve s ∧ TableEmpty s ∧
      (Along (step resolve) (fun s e _ => KeysTellFilesApart resolve fileAt s e)
        (QueueSystem.initial fileSystem) es → NoOverlap fileAt s) := by
  have hordered : Ordered s :=
    runFrom_invariant (P := fun _ _ _ => True) (fun u e v hu hstep _ => hu.step hstep) es _ _
      (ordered_initial fileSystem) (along_true es _) hrun
  refine ⟨hordered.inOrder, hordered.notBlocked, soonQuiet s, hordered.tableEmpty, fun halong => ?_⟩
  have hinitial : FilesApart fileAt (QueueSystem.initial fileSystem) := fun i j hi => by cases hi
  have hkept : ∀ (u : QueueSystem FS) (e : Event FS) (v : QueueSystem FS), FilesApart fileAt u →
      step resolve u e = some v → KeysTellFilesApart resolve fileAt u e → FilesApart fileAt v :=
    fun _ _ _ hu hstep hmeets => hu.step hmeets hstep
  have hapart : FilesApart fileAt s := runFrom_invariant hkept es _ _ hinitial halong hrun
  exact hapart.noOverlap hordered.inOrder

/-! ## A file below a link to its directory -/

/-- What `realpath` answers for `/link/f`, where `/link` is a link to `/real`, before and after the
file is created. -/
def linkRealpath (created : Bool) : Realpath := if created then .found "/real/f" else .missing

/-- The file that a path denotes, or would create. -/
def linkFileAt (_ : Bool) (path : String) : String := if path = "/link/f" then "/real/f" else path

/-- Two calls for an existing file. -/
def existingRun : List (Event Bool) :=
  [.call "/link/f" none, .call "/real/f" none, .begin 0, .resolved 0 (linkRealpath true), .start 0,
    .begin 1, .resolved 1 (.found "/real/f"), .settle 0 true, .chain 0, .start 1]

/-- The first callback creates the file, and a second call is made while it runs. -/
def creatingRun : List (Event Bool) :=
  [.call "/link/f" none, .begin 0, .resolved 0 (linkRealpath false), .start 0, .change true,
    .call "/link/f" none, .begin 1, .resolved 1 (linkRealpath true), .start 1]

/-- Two calls for an existing file under two names, the first of which fails, are serialized. -/
theorem mutations_serialized_existing :
    ∃ s, runFrom (step id) (QueueSystem.initial true) existingRun = some s ∧ InOrder s ∧
      NotBlocked id s ∧ SoonQuiet id s ∧ TableEmpty s ∧ NoOverlap linkFileAt s ∧
      s.isRunning 1 = true := by
  have hsome : (runFrom (step id) (QueueSystem.initial true) existingRun).isSome = true := by
    decide
  have halong : Along (step id) (fun s e _ => KeysTellFilesApart id linkFileAt s e)
      (QueueSystem.initial true) existingRun := by decide
  have hrunning : ∀ s ∈ runFrom (step id) (QueueSystem.initial true) existingRun,
      s.isRunning 1 = true := by decide
  obtain ⟨s, hs⟩ := Option.isSome_iff_exists.1 hsome
  obtain ⟨horder, hblocked, hquiet, hempty, hoverlap⟩ := mutations_serialized linkFileAt hs
  exact ⟨s, hs, horder, hblocked, hquiet, hempty, hoverlap halong, hrunning s hs⟩

/-- Two callbacks for one file overlap when the file is created between the two calls. -/
theorem created_file_overlaps :
    ¬∀ (es : List (Event Bool)) (s : QueueSystem Bool),
      runFrom (step id) (QueueSystem.initial false) es = some s → NoOverlap linkFileAt s := by
  intro h
  have hsome : (runFrom (step id) (QueueSystem.initial false) creatingRun).isSome = true := by
    decide
  have hboth : ∀ s ∈ runFrom (step id) (QueueSystem.initial false) creatingRun,
      s.isRunning 0 = true ∧ s.isRunning 1 = true ∧
        s.file? linkFileAt 0 = s.file? linkFileAt 1 := by decide
  obtain ⟨s, hs⟩ := Option.isSome_iff_exists.1 hsome
  obtain ⟨hzero, hone, hfile⟩ := hboth s hs
  have := h creatingRun s hs 0 1 hzero hone hfile
  omega

end BeauPi.Tools
