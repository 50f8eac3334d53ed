import BeauPi.Background.Steps
import BeauPi.Machine.Runs

/-!
# Background tasks: wake events are accounted for

A wake event is queued, handed to the host, and consumed when the host has taken it.
The manager keeps the state of each event, which it persists, and a marker for the
delivery in flight, which it does not; the host answers later, through the queue of
operations.  A branch that is restored brings back the persisted half only.

* `WakeSystem`, `Event`, `step` — the manager, the deliveries the host works on, and
  everything that can happen between two suspensions.
* `Accounted` — events are `delivered` exactly while the one delivery in flight holds
  them.
* `Orderly` — branches are restored between deliveries only, without events that are
  `delivered` or that the host has already taken.
* `wake_accounted_of_orderly` — **along every orderly run wake events are accounted
  for, and no event the host has taken is handed over again**.
-/

namespace BeauPi.Background

open Machine Session List
open Option (map_eq_some_iff mem_def toList_some)

/-! ## The system -/

/-- How far a delivery has come. -/
inductive DeliveryOutcome
  | inFlight
  | succeeded
  | failed (error : String)
  deriving DecidableEq, Repr

/-- A delivery that the host was given and whose outcome the manager has not dealt
with: which manager handed it over, in which generation, and its events. -/
structure Delivery where
  owner : Nat
  generation : Nat
  eventIds : List String
  outcome : DeliveryOutcome
  deriving DecidableEq, Repr

/-- The current manager, the deliveries, the events that some successful delivery
contained, and the progress review that the queue of operations waits for. -/
structure WakeSystem where
  manager : BackgroundTaskManager
  owner : Nat
  deliveries : List Delivery
  succeeded : List String
  reviewing : Option ProgressReviewInFlight

/-- What can happen next. -/
inductive Event
  /-- `bindWakeHost` -/
  | bindWakeHost
  /-- `start`, `attach`, `logs` or `cancel` changes a task -/
  | storeTask (now : ℚ) (task : BackgroundTaskV1)
  /-- `wait` -/
  | wait (now : ℚ) (taskId : String) (triggers : Option (List BackgroundTriggerInput))
  /-- a monitor event, a poll or a wait observes a task -/
  | observe (now : ℚ) (patternId statusId : String) (hasReviewer : Bool) (monitorId : String)
      (preferred : Option BackgroundWakeReason) (monitor : Option MonitorView)
      (read : MonitorLog)
  /-- the progress reviewer answers -/
  | reviewed (now : ℚ) (newId : String) (answer : Except String ProgressReviewV1)
  /-- `consumeWakeQueue` -/
  | consume (now : ℚ) (hasPendingUserMessages : Bool)
  /-- the promise of a delivery settles -/
  | settle (index : Nat) (outcome : Except String Unit)
  /-- the queue executes what follows the end of a delivery -/
  | conclude (now : ℚ) (index : Nat)
  /-- the session moves to another branch and the manager is rebuilt -/
  | rebuild (now : ℚ) (entries : List SessionEntry)
  /-- a new manager replaces the current one, after a crash of the process or within it -/
  | construct (sessionId : String) (entries : List SessionEntry) (crashed : Bool)

variable (host : Host)

/-- The outcome of a settled promise. -/
def settledOutcome : Except String Unit → DeliveryOutcome
  | .ok _ => .succeeded
  | .error error => .failed error

/-- What follows the end of a delivery. -/
def concludeDelivery (now : ℚ) (delivery : Delivery) (m : BackgroundTaskManager) :
    BackgroundTaskManager :=
  match delivery.outcome with
  | .inFlight => m
  | .succeeded => finishWakeDelivery host now delivery.generation delivery.eventIds m
  | .failed error => failWakeDelivery host now delivery.generation delivery.eventIds error m

/-- One event.  The operations of the queue wait while a progress review is in flight. -/
def step (s : WakeSystem) : Event → Option WakeSystem
  | .bindWakeHost => some { s with manager := { s.manager with wakeHostBound := true } }
  | .storeTask now task =>
    if s.reviewing.isSome then none
    else some { s with manager := storeTask host now task s.manager }
  | .wait now taskId triggers =>
    if s.reviewing.isSome then none
    else match wait host now taskId triggers s.manager with
    | .error _ => some s
    | .ok manager => some { s with manager := manager }
  | .observe now patternId statusId hasReviewer monitorId preferred monitor read =>
    if s.reviewing.isSome then none
    else
      let observed := observeTask host now patternId statusId hasReviewer monitorId preferred
        monitor read s.manager
      some { s with manager := observed.1, reviewing := observed.2 }
  | .reviewed now newId answer =>
    match s.reviewing with
    | none => none
    | some review =>
      some { s with
        manager := finishProgressReview host now newId review answer s.manager
        reviewing := none }
  | .consume now hasPendingUserMessages =>
    let consumed := consumeWakeQueue host now hasPendingUserMessages s.manager
    some { s with
      manager := consumed.1
      deliveries := s.deliveries ++ consumed.2.toList.map fun eventIds =>
        { owner := s.owner, generation := s.manager.generation, eventIds, outcome := .inFlight } }
  | .settle index outcome =>
    match s.deliveries[index]? with
    | none => none
    | some delivery =>
      if delivery.outcome ≠ .inFlight then none
      else some { s with
        deliveries := s.deliveries.set index { delivery with outcome := settledOutcome outcome }
        succeeded := match outcome with
          | .ok _ => s.succeeded ++ delivery.eventIds
          | .error _ => s.succeeded }
  | .conclude now index =>
    match s.deliveries[index]? with
    | none => none
    | some delivery =>
      if s.reviewing.isSome || delivery.outcome = .inFlight then none
      else some { s with
        -- a manager that has been replaced is disposed and ignores the outcome
        manager :=
          if delivery.owner = s.owner then concludeDelivery host now delivery s.manager
          else s.manager
        deliveries := s.deliveries.eraseIdx index }
  | .rebuild now entries =>
    if s.reviewing.isSome then none
    else some { s with manager := rebuild host now entries s.manager }
  | .construct sessionId entries crashed =>
    some { s with
      manager := construct host sessionId entries
      owner := s.owner + 1
      deliveries := if crashed then [] else s.deliveries
      reviewing := none }

/-- A system that has just started on a branch. -/
def startSystem (sessionId : String) (entries : List SessionEntry) : WakeSystem :=
  { manager := construct host sessionId entries, owner := 0, deliveries := [], succeeded := []
    reviewing := none }

/-! ## The property -/

/-- The delivery in flight of the current generation holds the event. -/
def InDelivery (m : BackgroundTaskManager) (id : String) : Prop :=
  ∃ delivery ∈ m.wakeDelivery, delivery.generation = m.generation ∧ id ∈ delivery.eventIds

/-- What is asked of every state: an event is `delivered` if and only if the delivery
in flight of the current generation holds it, and the host works on one delivery at
most. -/
structure Accounted (s : WakeSystem) : Prop where
  delivered : ∀ event ∈ s.manager.wakeEvents.values,
    event.state = .delivered ↔ InDelivery s.manager event.id
  single : (s.deliveries.filter fun delivery => delivery.outcome = .inFlight).length ≤ 1

/-- The events that the step hands to the host. -/
def handedOver (s : WakeSystem) : Event → List String
  | .consume now hasPendingUserMessages =>
    (consumeWakeQueue host now hasPendingUserMessages s.manager).2.getD []
  | _ => []

/-- What is asked of every step: it hands over no event that a successful delivery
contained. -/
def NotAgain (s : WakeSystem) (e : Event) : Prop := ∀ id ∈ handedOver host s e, id ∉ s.succeeded

/-! ## The condition -/

/-- The host works on no delivery. -/
def NoneInFlight (s : WakeSystem) : Prop :=
  ∀ delivery ∈ s.deliveries, delivery.outcome ≠ .inFlight

/-- The branch queues no event that a successful delivery contained. -/
def QueuesNothingTaken (s : WakeSystem) (sessionId : String) (entries : List SessionEntry) :
    Prop :=
  ∀ event ∈ (restoredEvents host sessionId entries).values,
    event.state = .queued → event.id ∉ s.succeeded

/-- The branch was persisted between deliveries. -/
def NothingDelivered (sessionId : String) (entries : List SessionEntry) : Prop :=
  ∀ event ∈ (restoredEvents host sessionId entries).values, event.state ≠ .delivered

/-- The id is new: no delivery has contained it. -/
def Fresh (s : WakeSystem) (id : String) : Prop :=
  id ∉ s.succeeded ∧ ∀ delivery ∈ s.deliveries, id ∉ delivery.eventIds

/-- **The condition on a step**: the ids drawn for wake events are new; a branch is
restored while the host works on no delivery, and queues no event it has taken; and a
new manager restores no event that is `delivered`. -/
def Orderly (s : WakeSystem) : Event → Prop
  | .observe _ patternId statusId _ _ _ _ _ => Fresh s patternId ∧ Fresh s statusId
  | .reviewed _ newId _ => Fresh s newId
  | .rebuild _ entries =>
    NoneInFlight s ∧ QueuesNothingTaken host s s.manager.sessionId entries
  | .construct sessionId entries crashed =>
    (crashed = true ∨ NoneInFlight s) ∧ QueuesNothingTaken host s sessionId entries ∧
      NothingDelivered host sessionId entries
  | _ => True

/-! ## The invariant -/

/-- The delivery was handed over by the current manager in its current generation. -/
def IsCurrent (owner generation : Nat) (delivery : Delivery) : Prop :=
  delivery.owner = owner ∧ delivery.generation = generation

instance (owner generation : Nat) : DecidablePred (IsCurrent owner generation) :=
  fun _ => inferInstanceAs (Decidable (_ ∧ _))

/-- What holds between the steps of an orderly run. -/
structure WakeInvariant (s : WakeSystem) : Prop where
  keys : ∀ id event, s.manager.wakeEvents.get? id = some event → event.id = id
  /-- the events of the marker are the delivered ones -/
  delivered : ∀ id event, s.manager.wakeEvents.get? id = some event →
    (event.state = .delivered ↔ ∃ delivery ∈ s.manager.wakeDelivery, id ∈ delivery.eventIds)
  generation : ∀ delivery ∈ s.manager.wakeDelivery, delivery.generation = s.manager.generation
  /-- the marker stands for the one delivery of the current generation -/
  current : (s.deliveries.filter (IsCurrent s.owner s.manager.generation)).map (·.eventIds) =
    (s.manager.wakeDelivery.map (·.eventIds)).toList
  inFlight : ∀ delivery ∈ s.deliveries, delivery.outcome = .inFlight →
    IsCurrent s.owner s.manager.generation delivery
  queued : ∀ id event, s.manager.wakeEvents.get? id = some event → event.state = .queued →
    id ∉ s.succeeded
  /-- a delivery that failed or may still fail holds no event that was taken -/
  pending : ∀ delivery ∈ s.deliveries, IsCurrent s.owner s.manager.generation delivery →
    delivery.outcome ≠ .succeeded → ∀ id ∈ delivery.eventIds, id ∉ s.succeeded
  older : ∀ delivery ∈ s.deliveries, delivery.owner ≤ s.owner ∧
    (delivery.owner = s.owner → delivery.generation ≤ s.manager.generation)

variable {index : Nat} {delivery : Delivery}

/-- A position of a list splits it. -/
theorem split_at {l : List Delivery} (h : l[index]? = some delivery) :
    ∃ before after, l = before ++ delivery :: after ∧
      (∀ other, l.set index other = before ++ other :: after) ∧
      l.eraseIdx index = before ++ after := by
  obtain ⟨hlt, hget⟩ := List.getElem?_eq_some_iff.1 h
  refine ⟨l.take index, l.drop (index + 1), ?_, ?_, ?_⟩
  · rw [← hget, getElem_cons_drop, take_append_drop]
  · exact fun other => List.set_eq_take_append_cons_drop.trans (if_pos hlt)
  · exact eraseIdx_eq_take_drop_succ l index

variable {before after : List Delivery}

/-- The other elements of a list that was split. -/
theorem mem_of_mem_rest {other : Delivery} (h : other ∈ before ++ after) :
    other ∈ before ++ delivery :: after := by
  rcases List.mem_append.1 h with hm | hm
  · exact mem_append_left _ hm
  · exact mem_append_right _ (mem_cons_of_mem _ hm)

namespace WakeInvariant

variable {host} {s : WakeSystem}

/-- Without a marker no delivery is current. -/
theorem not_current (h : WakeInvariant s) (hd : s.manager.wakeDelivery = none) :
    ∀ delivery ∈ s.deliveries, ¬ IsCurrent s.owner s.manager.generation delivery := by
  have hnil := h.current
  rw [hd] at hnil
  simpa using hnil

variable (h : WakeInvariant s)
  (hl : s.deliveries = before ++ delivery :: after)
  (hcurrent : IsCurrent s.owner s.manager.generation delivery)

include h hl hcurrent in
/-- A current delivery is the one the marker stands for, and the only one. -/
theorem only_current :
    (∃ marker, s.manager.wakeDelivery = some marker ∧ marker.eventIds = delivery.eventIds) ∧
      ∀ other ∈ before ++ after, ¬ IsCurrent s.owner s.manager.generation other := by
  have hmap := h.current
  rw [hl, filter_append, filter_cons_of_pos (by simpa using hcurrent),
    map_append, map_cons] at hmap
  -- a list with that element in the middle has at most one element
  obtain ⟨marker, hmarker⟩ : ∃ marker, s.manager.wakeDelivery = some marker := by
    cases hd : s.manager.wakeDelivery with
    | none => simp [hd] at hmap
    | some marker => exact ⟨marker, rfl⟩
  rw [hmarker, Option.map_some, toList_some, append_eq_singleton_iff] at hmap
  simp only [map_eq_nil_iff, List.cons.injEq, reduceCtorEq, and_false, or_false,
    filter_eq_nil_iff, decide_eq_true_eq] at hmap
  obtain ⟨hbefore, hids, hafter⟩ := hmap
  refine ⟨⟨marker, hmarker, hids.symm⟩, fun other hother => ?_⟩
  rcases List.mem_append.1 hother with hm | hm
  · exact hbefore other hm
  · exact hafter other hm

/-- The invariant is what the property needs. -/
theorem accounted (h : WakeInvariant s) : Accounted s where
  delivered := by
    intro event hevent
    obtain ⟨id, hid⟩ := OrderedMap.mem_values_iff.1 hevent
    rw [h.delivered id event hid, ← h.keys id event hid]
    constructor
    · rintro ⟨delivery, hd, hin⟩
      exact ⟨delivery, hd, h.generation delivery hd, hin⟩
    · rintro ⟨delivery, hd, -, hin⟩
      exact ⟨delivery, hd, hin⟩
  single := by
    have hfilter : (s.deliveries.filter fun delivery => delivery.outcome = .inFlight) =
        (s.deliveries.filter (IsCurrent s.owner s.manager.generation)).filter fun delivery =>
          delivery.outcome = .inFlight := by
      rw [filter_filter]
      refine filter_congr fun delivery hmem => ?_
      by_cases hout : delivery.outcome = .inFlight
      · simp [hout, h.inFlight delivery hmem hout]
      · simp [hout]
    have hlen := congrArg List.length h.current
    rw [length_map] at hlen
    rw [hfilter]
    refine (length_filter_le ..).trans (hlen.trans_le ?_)
    cases s.manager.wakeDelivery <;> simp

/-! ### Steps that queue events -/

variable {m : BackgroundTaskManager}

/-- Queued events with new ids keep the invariant. -/
theorem enqueue (h : WakeInvariant s) {ids : List String} (hfresh : ∀ id ∈ ids, Fresh s id)
    (hm : Enqueues ids s.manager m) (reviewing : Option ProgressReviewInFlight) :
    WakeInvariant { s with manager := m, reviewing := reviewing } := by
  have hcurrent : IsCurrent s.owner m.generation = IsCurrent s.owner s.manager.generation := by
    rw [hm.generation]
  constructor
  case keys =>
    intro id event hevent
    rcases hm.wakeEvents id event hevent with hold | ⟨-, hid, -⟩
    · exact h.keys id event hold
    · exact hid
  case delivered =>
    intro id event hevent
    dsimp only
    rw [hm.wakeDelivery]
    rcases hm.wakeEvents id event hevent with hold | ⟨hnew, -, hqueued⟩
    · exact h.delivered id event hold
    · -- a new id is in no delivery, so not in the one the marker stands for
      refine iff_of_false (by simp [hqueued]) ?_
      rintro ⟨marker, hmarker, hin⟩
      have hmap := h.current
      rw [mem_def.1 hmarker] at hmap
      have hmem : marker.eventIds ∈
          (s.deliveries.filter (IsCurrent s.owner s.manager.generation)).map (·.eventIds) := by
        rw [hmap]; simp
      obtain ⟨delivery, hdelivery, heq⟩ := List.mem_map.1 hmem
      exact (hfresh id hnew).2 delivery (mem_of_mem_filter hdelivery) (heq ▸ hin)
  case generation =>
    intro delivery hdelivery
    dsimp only at hdelivery ⊢
    rw [hm.generation]
    exact h.generation delivery (hm.wakeDelivery ▸ hdelivery)
  case current => simpa only [hm.generation, hm.wakeDelivery] using h.current
  case inFlight => simpa only [hcurrent] using h.inFlight
  case queued =>
    intro id event hevent hqueued
    rcases hm.wakeEvents id event hevent with hold | ⟨hnew, -, -⟩
    · exact h.queued id event hold hqueued
    · exact (hfresh id hnew).1
  case pending => simpa only [hcurrent] using h.pending
  case older => simpa only [hm.generation] using h.older

/-! ### Steps of a delivery -/

variable {t : WakeSystem}

/-- Handing the queued events over keeps the invariant, and none of them was taken. -/
theorem consume (h : WakeInvariant s) (now : ℚ) (hasPendingUserMessages : Bool)
    (ht : step host s (.consume now hasPendingUserMessages) = some t) :
    WakeInvariant t ∧ NotAgain host s (.consume now hasPendingUserMessages) := by
  cases ht
  rcases consumeWakeQueue_cases host now hasPendingUserMessages s.manager with
    heq | ⟨m, heq, hnone, hgeneration, hdelivery, hevents⟩
  · refine ⟨?_, by simp [NotAgain, handedOver, heq]⟩
    simpa [heq] using h
  have hids : ∀ id, id ∈ (queuedEvents s.manager).map (·.id) ↔
      ∃ event, s.manager.wakeEvents.get? id = some event ∧ event.state = .queued := by
    intro id
    simp only [mem_map, mem_queuedEvents, OrderedMap.mem_values_iff]
    constructor
    · rintro ⟨event, ⟨⟨key, hkey⟩, hqueued⟩, rfl⟩
      exact ⟨event, h.keys key event hkey ▸ hkey, hqueued⟩
    · rintro ⟨event, hevent, hqueued⟩
      exact ⟨event, ⟨⟨id, hevent⟩, hqueued⟩, h.keys id event hevent⟩
  have htaken : ∀ id ∈ (queuedEvents s.manager).map (·.id), id ∉ s.succeeded := by
    intro id hid
    obtain ⟨event, hevent, hqueued⟩ := (hids id).1 hid
    exact h.queued id event hevent hqueued
  refine ⟨?_, by simpa [NotAgain, handedOver, heq] using htaken⟩
  have hold := h.not_current hnone
  simp only [heq, toList_some, map_cons, map_nil]
  constructor
  case keys =>
    intro id event hevent
    rw [hevents] at hevent
    obtain ⟨old, hget, rfl⟩ := map_eq_some_iff.1 hevent
    have := h.keys id old hget
    split_ifs <;> exact this
  case delivered =>
    intro id event hevent
    dsimp only at hevent ⊢
    rw [hevents] at hevent
    obtain ⟨old, hget, rfl⟩ := map_eq_some_iff.1 hevent
    have hnot : old.state ≠ .delivered := by
      rw [Ne, h.delivered id old hget, hnone]; simp
    simp only [hdelivery, mem_def, Option.some.injEq, exists_eq_left', hids, hget]
    split_ifs with hqueued
    · simp [hqueued]
    · simp [hqueued, hnot]
  case generation =>
    intro delivery hmem
    dsimp only at hmem ⊢
    rw [hdelivery] at hmem
    cases hmem
    exact hgeneration.symm
  case current =>
    dsimp only
    rw [hgeneration, hdelivery, filter_append,
      List.filter_eq_nil_iff.2 fun delivery hmem => by simpa using hold delivery hmem]
    simp [IsCurrent]
  case inFlight =>
    intro delivery hmem hout
    dsimp only at hmem ⊢
    rw [hgeneration]
    rcases List.mem_append.1 hmem with hmem | hmem
    · exact h.inFlight delivery hmem hout
    · rw [List.mem_singleton.1 hmem]; exact ⟨rfl, rfl⟩
  case queued =>
    intro id event hevent hqueued
    dsimp only at hevent
    rw [hevents] at hevent
    obtain ⟨old, hget, rfl⟩ := map_eq_some_iff.1 hevent
    split_ifs at hqueued with hwas
    exact absurd hqueued hwas
  case pending =>
    intro delivery hmem hcurrent hout
    dsimp only at hmem hcurrent
    rw [hgeneration] at hcurrent
    rcases List.mem_append.1 hmem with hmem | hmem
    · exact absurd hcurrent (hold delivery hmem)
    · rw [List.mem_singleton.1 hmem]; exact htaken
  case older =>
    intro delivery hmem
    dsimp only at hmem ⊢
    rw [hgeneration]
    rcases List.mem_append.1 hmem with hmem | hmem
    · exact h.older delivery hmem
    · rw [List.mem_singleton.1 hmem]; exact ⟨le_rfl, fun _ => le_rfl⟩

include h hl hcurrent in
/-- The events of a current delivery are those that are `delivered`. -/
theorem delivered_of_current {id : String}
    {event : BackgroundWakeEventV1} (hevent : s.manager.wakeEvents.get? id = some event) :
    event.state = .delivered ↔ id ∈ delivery.eventIds := by
  obtain ⟨marker, hmarker, hids⟩ := (h.only_current hl hcurrent).1
  rw [h.delivered id event hevent, hmarker, ← hids]
  simp

/-- The end of the host's work on a delivery keeps the invariant. -/
theorem settle (h : WakeInvariant s) {outcome : Except String Unit}
    (ht : step host s (.settle index outcome) = some t) : WakeInvariant t := by
  simp only [step] at ht
  split at ht
  · cases ht
  rename_i delivery hget
  split_ifs at ht with hout
  cases ht
  obtain ⟨before, after, hl, hset, -⟩ := split_at hget
  have hcurrent : IsCurrent s.owner s.manager.generation delivery :=
    h.inFlight delivery (by simp [hl]) (not_not.1 hout)
  obtain ⟨-, hothers⟩ := h.only_current hl hcurrent
  have hother : ∀ other ∈ before ++ after, other ∈ s.deliveries :=
    fun _ hmem => hl ▸ mem_of_mem_rest hmem
  -- a member of the new list is the settled delivery or an old one that is not current
  have hmem : ∀ other ∈ before ++ { delivery with outcome := settledOutcome outcome } :: after,
      other = { delivery with outcome := settledOutcome outcome } ∨ other ∈ before ++ after := by
    intro other hm
    simp only [mem_append, mem_cons] at hm ⊢
    tauto
  rw [hset]
  constructor
  case keys => exact h.keys
  case delivered => exact h.delivered
  case generation => exact h.generation
  case current =>
    have hmap := h.current
    rw [hl, filter_append, filter_cons_of_pos (by simpa using hcurrent)] at hmap
    have hsettled : IsCurrent s.owner s.manager.generation
        { delivery with outcome := settledOutcome outcome } := hcurrent
    dsimp only
    rw [filter_append, filter_cons_of_pos (by simpa using hsettled), ← hmap]
    simp
  case inFlight =>
    intro other hm hflight
    rcases hmem other hm with rfl | hm
    · exact hcurrent
    · exact h.inFlight other (hother other hm) hflight
  case queued =>
    intro id event hevent hqueued htaken
    have hnew : id ∈ s.succeeded ∨ id ∈ delivery.eventIds := by
      cases outcome with
      | ok => exact List.mem_append.1 htaken
      | error => exact .inl htaken
    rcases hnew with hold | hin
    · exact h.queued id event hevent hqueued hold
    · rw [(h.delivered_of_current hl hcurrent hevent).2 hin] at hqueued
      cases hqueued
  case pending =>
    intro other hm hoc hne id hid
    rcases hmem other hm with rfl | hm
    · cases outcome with
      | ok => exact absurd rfl hne
      | error =>
        exact h.pending delivery (by simp [hl]) hcurrent (by rw [not_not.1 hout]; simp) id hid
    · exact absurd hoc (hothers other hm)
  case older =>
    intro other hm
    rcases hmem other hm with rfl | hm
    · exact h.older delivery (by simp [hl])
    · exact h.older other (hother other hm)

include h hl hcurrent in
/-- Without the delivery that the queue has dealt with, the invariant holds of a
manager that has no marker and none of its events `delivered`. -/
theorem concluded
    (hgeneration : m.generation = s.manager.generation) (hnone : m.wakeDelivery = none)
    (f : BackgroundWakeEventV1 → BackgroundWakeEventV1)
    (hf : ∀ event, (f event).id = event.id ∧ (f event).state ≠ .delivered)
    (hqueued : ∀ event, (f event).state = .queued → delivery.outcome ≠ .succeeded)
    (hevents : ∀ id, m.wakeEvents.get? id = (s.manager.wakeEvents.get? id).map fun event => if id ∈
      delivery.eventIds then f event else event) :
    WakeInvariant { s with manager := m, deliveries := before ++ after } := by
  obtain ⟨-, hothers⟩ := h.only_current hl hcurrent
  have hother : ∀ other ∈ before ++ after, other ∈ s.deliveries :=
    fun _ hmem => hl ▸ mem_of_mem_rest hmem
  constructor
  case keys =>
    intro id event hevent
    rw [hevents] at hevent
    obtain ⟨old, hget, rfl⟩ := map_eq_some_iff.1 hevent
    split_ifs
    · exact (hf old).1.trans (h.keys id old hget)
    · exact h.keys id old hget
  case delivered =>
    intro id event hevent
    dsimp only at hevent ⊢
    rw [hevents] at hevent
    obtain ⟨old, hget, rfl⟩ := map_eq_some_iff.1 hevent
    rw [hnone]
    refine iff_of_false ?_ (by simp)
    split_ifs with hin
    · exact (hf old).2
    · exact fun hd => hin ((h.delivered_of_current hl hcurrent hget).1 hd)
  case generation => simp [hnone]
  case current =>
    dsimp only
    rw [hnone, hgeneration,
      List.filter_eq_nil_iff.2 fun other hmem => by simpa using hothers other hmem]
    rfl
  case inFlight =>
    intro other hmem hout
    exact hgeneration ▸ h.inFlight other (hother other hmem) hout
  case queued =>
    intro id event hevent hq
    dsimp only at hevent
    rw [hevents] at hevent
    obtain ⟨old, hget, rfl⟩ := map_eq_some_iff.1 hevent
    split_ifs at hq with hin
    · exact h.pending delivery (by simp [hl]) hcurrent (hqueued old hq) id hin
    · exact h.queued id old hget hq
  case pending =>
    intro other hmem hoc
    exact absurd (hgeneration ▸ hoc) (hothers other hmem)
  case older =>
    intro other hmem
    exact hgeneration ▸ h.older other (hother other hmem)

/-- A delivery that is not current leaves no trace when it is dealt with. -/
theorem forgotten (h : WakeInvariant s) (hl : s.deliveries = before ++ delivery :: after)
    (hcurrent : ¬ IsCurrent s.owner s.manager.generation delivery) :
    WakeInvariant { s with deliveries := before ++ after } := by
  have hother : ∀ other ∈ before ++ after, other ∈ s.deliveries :=
    fun _ hmem => hl ▸ mem_of_mem_rest hmem
  constructor
  case keys => exact h.keys
  case delivered => exact h.delivered
  case generation => exact h.generation
  case current =>
    have hmap := h.current
    rw [hl, filter_append, filter_cons_of_neg (by simpa using hcurrent),
      ← filter_append] at hmap
    exact hmap
  case inFlight => exact fun other hmem => h.inFlight other (hother other hmem)
  case queued => exact h.queued
  case pending => exact fun other hmem => h.pending other (hother other hmem)
  case older => exact fun other hmem => h.older other (hother other hmem)

/-- What the queue executes after the end of a delivery keeps the invariant. -/
theorem conclude (h : WakeInvariant s) {now : ℚ} (ht : step host s (.conclude now index) = some t) :
    WakeInvariant t := by
  simp only [step] at ht
  split at ht
  · cases ht
  rename_i delivery hget
  split_ifs at ht with hbusy howner
  · -- the delivery of the current manager, in this generation or an earlier one
    cases ht
    obtain ⟨before, after, hl, -, herase⟩ := split_at hget
    rw [herase]
    by_cases hgen : delivery.generation = s.manager.generation
    · have hcurrent : IsCurrent s.owner s.manager.generation delivery := ⟨howner, hgen⟩
      unfold concludeDelivery
      cases hout : delivery.outcome with
      | inFlight => simp [hout] at hbusy
      | succeeded =>
        dsimp only
        unfold finishWakeDelivery
        rw [if_neg (not_not.2 hgen)]
        exact h.concluded hl hcurrent rfl rfl
          (fun event => { event with state := .consumed, consumedAt := some now })
          (fun _ => ⟨rfl, by simp⟩) (by simp) (fun _ => OrderedMap.get?_adjust ..)
      | failed error =>
        dsimp only
        unfold failWakeDelivery
        rw [if_neg (not_not.2 hgen)]
        exact h.concluded hl hcurrent rfl rfl
          (fun event =>
            { event with
              state := .queued, diagnostic := some ("Wake delivery failed: " ++ error) })
          (fun _ => ⟨rfl, by simp⟩) (by simp [hout]) (fun _ => OrderedMap.get?_adjust ..)
    · have hsame : concludeDelivery host now delivery s.manager = s.manager := by
        unfold concludeDelivery finishWakeDelivery failWakeDelivery
        cases delivery.outcome <;> simp [hgen]
      rw [hsame]
      exact h.forgotten hl fun hcurrent => hgen hcurrent.2
  · cases ht
    obtain ⟨before, after, hl, -, herase⟩ := split_at hget
    rw [herase]
    exact h.forgotten hl fun hcurrent => howner hcurrent.1

/-! ### Restored branches -/

/-- A manager that has restored a branch, in a new generation or as a new owner. -/
theorem restored (h : WakeInvariant s) {sessionId : String} {entries : List SessionEntry}
    (hm : Restores host sessionId entries m) (htaken : QueuesNothingTaken host s sessionId entries)
    {owner : Nat} {deliveries : List Delivery}
    (hsub : ∀ delivery ∈ deliveries, delivery ∈ s.deliveries)
    (hflight : ∀ delivery ∈ deliveries, delivery.outcome ≠ .inFlight)
    (hnew : s.owner < owner ∨ owner = s.owner ∧ s.manager.generation < m.generation)
    (reviewing : Option ProgressReviewInFlight) :
    WakeInvariant
      { s with manager := m, owner := owner, deliveries := deliveries, reviewing := reviewing } := by
  -- what was handed over before belongs to an earlier owner or generation
  have hold : ∀ delivery ∈ deliveries, ¬ IsCurrent owner m.generation delivery := by
    rintro delivery hmem ⟨howner, hgeneration⟩
    obtain ⟨hle, hgle⟩ := h.older delivery (hsub delivery hmem)
    rcases hnew with hlt | ⟨rfl, hlt⟩
    · omega
    · have := hgle howner
      omega
  constructor
  case keys => exact hm.keys
  case delivered =>
    intro id event hevent
    refine iff_of_false (hm.notDelivered id event hevent) ?_
    simp [hm.wakeDelivery]
  case generation => simp [hm.wakeDelivery]
  case current =>
    dsimp only
    rw [hm.wakeDelivery,
      List.filter_eq_nil_iff.2 fun other hmem => by simpa using hold other hmem]
    rfl
  case inFlight => exact fun delivery hmem hout => absurd hout (hflight delivery hmem)
  case queued =>
    intro id event hevent hqueued
    have hkey := hm.keys id event hevent
    exact hkey ▸ htaken event
      (OrderedMap.mem_values_iff.2 ⟨id, hm.queued id event hevent hqueued⟩) hqueued
  case pending => exact fun delivery hmem hcurrent => absurd hcurrent (hold delivery hmem)
  case older =>
    intro delivery hmem
    obtain ⟨hle, hgle⟩ := h.older delivery (hsub delivery hmem)
    dsimp only
    rcases hnew with hlt | ⟨rfl, hlt⟩
    · exact ⟨by omega, fun heq => absurd heq (by omega)⟩
    · exact ⟨hle, fun heq => (hgle heq).trans hlt.le⟩

/-- An orderly step keeps the invariant and hands over no event that was taken. -/
theorem next (h : WakeInvariant s) {e : Event} (ht : step host s e = some t)
    (horderly : Orderly host s e) : WakeInvariant t ∧ NotAgain host s e := by
  -- all steps but `consume` hand over nothing
  have hnothing : handedOver host s e = [] → NotAgain host s e := by
    intro hnil id hid
    rw [hnil] at hid
    cases hid
  cases e with
  | bindWakeHost =>
    cases ht
    have hbound : Enqueues [] s.manager { s.manager with wakeHostBound := true } :=
      .of_sameWakes rfl rfl rfl rfl
    exact ⟨h.enqueue (by simp) hbound _, hnothing rfl⟩
  | storeTask now task =>
    simp only [step] at ht
    split_ifs at ht
    cases ht
    exact ⟨h.enqueue (forall_mem_nil _) (storeTask_enqueues ..) _, hnothing rfl⟩
  | wait now taskId triggers =>
    simp only [step] at ht
    split_ifs at ht
    split at ht
    · cases ht
      exact ⟨h, hnothing rfl⟩
    · rename_i hwait
      cases ht
      exact ⟨h.enqueue (forall_mem_nil _) (wait_enqueues hwait) _, hnothing rfl⟩
  | observe now patternId statusId hasReviewer monitorId preferred monitor read =>
    simp only [step] at ht
    split_ifs at ht
    cases ht
    refine ⟨h.enqueue ?_ (observeTask_enqueues ..) _, hnothing rfl⟩
    obtain ⟨hpattern, hstatus⟩ := horderly
    simp [hpattern, hstatus]
  | reviewed now newId answer =>
    simp only [step] at ht
    split at ht
    · cases ht
    · cases ht
      have hfresh : Fresh s newId := horderly
      exact ⟨h.enqueue (by simpa using hfresh) (finishProgressReview_enqueues ..) _, hnothing rfl⟩
  | consume now hasPendingUserMessages => exact h.consume now hasPendingUserMessages ht
  | settle index outcome => exact ⟨h.settle ht, hnothing rfl⟩
  | conclude now index => exact ⟨h.conclude ht, hnothing rfl⟩
  | rebuild now entries =>
    simp only [step] at ht
    split_ifs at ht
    cases ht
    exact ⟨h.restored (rebuild_restores ..) horderly.2 (fun _ hmem => hmem) horderly.1
      (.inr ⟨rfl, by simp⟩) _, hnothing rfl⟩
  | construct sessionId entries crashed =>
    cases ht
    obtain ⟨hflight, htaken, hdelivered⟩ := horderly
    refine ⟨h.restored (construct_restores hdelivered) htaken ?_ ?_ (.inl (by simp)) _,
      hnothing rfl⟩
    · intro delivery hmem
      cases crashed with
      | true => simp at hmem
      | false => simpa using hmem
    · intro delivery hmem
      cases crashed with
      | true => simp at hmem
      | false => exact hflight.resolve_left (by simp) delivery (by simpa using hmem)

end WakeInvariant

variable {host} in
/-- A system that starts on a branch without `delivered` events. -/
theorem startSystem_invariant {sessionId : String} {entries : List SessionEntry}
    (h : NothingDelivered host sessionId entries) :
    WakeInvariant (startSystem host sessionId entries) := by
  have hm := construct_restores h
  constructor
  case keys => exact hm.keys
  case delivered =>
    intro id event hevent
    refine iff_of_false (hm.notDelivered id event hevent) ?_
    simp [startSystem, hm.wakeDelivery]
  case generation => simp [startSystem, hm.wakeDelivery]
  case current => simp [startSystem, hm.wakeDelivery]
  all_goals simp [startSystem]

/-! ## Wake events are accounted for -/

/-- **Along every orderly run an event is `delivered` exactly while the one delivery in
flight holds it, and no event the host has taken is handed over again.** -/
theorem wake_accounted_of_orderly (sessionId : String) (entries : List SessionEntry)
    (es : List Event) (hstart : NothingDelivered host sessionId entries)
    (horderly : Along (step host) (fun s e _ => Orderly host s e)
      (startSystem host sessionId entries) es) :
    Accounted (startSystem host sessionId entries) ∧
      Along (step host) (fun s e t => Accounted t ∧ NotAgain host s e)
        (startSystem host sessionId entries) es := by
  have hinv := startSystem_invariant hstart
  refine ⟨hinv.accounted, along_of_invariant ?_ es _ hinv horderly⟩
  intro s e t hs hstep hguard
  obtain ⟨hkept, hagain⟩ := hs.next hstep hguard
  exact ⟨⟨hkept.accounted, hagain⟩, hkept⟩

/-! ## Runs -/

instance (m : BackgroundTaskManager) (id : String) : Decidable (InDelivery m id) :=
  inferInstanceAs (Decidable (∃ delivery ∈ m.wakeDelivery, _ ∧ _))

instance (s : WakeSystem) : Decidable (Accounted s) :=
  decidable_of_iff (_ ∧ _) ⟨fun h => ⟨h.1, h.2⟩, fun h => ⟨h.1, h.2⟩⟩

instance (s : WakeSystem) (e : Event) : Decidable (NotAgain host s e) :=
  inferInstanceAs (Decidable (∀ id ∈ handedOver host s e, id ∉ s.succeeded))

instance (s : WakeSystem) : Decidable (NoneInFlight s) :=
  inferInstanceAs (Decidable (∀ delivery ∈ s.deliveries, delivery.outcome ≠ .inFlight))

instance (s : WakeSystem) (sessionId : String) (entries : List SessionEntry) :
    Decidable (QueuesNothingTaken host s sessionId entries) :=
  inferInstanceAs (Decidable (∀ event ∈ (restoredEvents host sessionId entries).values,
    event.state = .queued → event.id ∉ s.succeeded))

instance (sessionId : String) (entries : List SessionEntry) :
    Decidable (NothingDelivered host sessionId entries) :=
  inferInstanceAs (Decidable (∀ event ∈ (restoredEvents host sessionId entries).values,
    event.state ≠ .delivered))

instance (s : WakeSystem) (id : String) : Decidable (Fresh s id) :=
  inferInstanceAs (Decidable (id ∉ s.succeeded ∧ ∀ delivery ∈ s.deliveries, id ∉ delivery.eventIds))

instance (s : WakeSystem) : (e : Event) → Decidable (Orderly host s e)
  | .observe .. => inferInstanceAs (Decidable (Fresh s _ ∧ Fresh s _))
  | .reviewed .. => inferInstanceAs (Decidable (Fresh s _))
  | .rebuild .. => inferInstanceAs (Decidable (NoneInFlight s ∧ QueuesNothingTaken ..))
  | .construct .. => inferInstanceAs (Decidable (_ ∧ QueuesNothingTaken .. ∧ NothingDelivered ..))
  | .bindWakeHost | .storeTask .. | .wait .. | .consume .. | .settle .. | .conclude .. =>
    isTrue trivial

/-- A host for runs without regular expressions. -/
def plainHost : Host where
  textLength := String.length
  sha256 _ := ""
  regExpError _ _ := none
  regExpTest _ _ _ := false

/-- A task that the coordinator has started. -/
def plainTask : BackgroundTaskV1 :=
  { id := "task-1", sessionId := "session-1", monitorId := "monitor-1", source := .started
    name := "build", goal := none, executable := some "make", args := [], cwd := none
    createdAt := 10, waitRequestedAt := none
    triggers := [⟨"trigger-0-9e528afc9cd5", .completed, true, none, none⟩]
    logCursor := 0, logHash := none, logPrefixHash := none, lastLogActivityAt := none
    lastReviewAt := none, reviewCount := 0, lastReviewHash := none, lastReviewSummary := none
    progressReview := ⟨false, 300000, 6, 12000, 30000, 512⟩, diagnostics := [] }

/-- The log of a task without output. -/
def noLog : MonitorLog :=
  { content := "", cursor := 0, hash := "", prefixHash := "", changed := false
    truncated := false, rotated := false, missing := true, path := "", diagnostic := none }

/-- The coordinator waits for a task; it completes and its event is handed over. -/
def handOver : List Event :=
  [.bindWakeHost, .storeTask 10 plainTask, .wait 20 "task-1" none,
    .observe 30 "event-0" "event-1" false "monitor-1" (some .completed)
      (some ⟨.completed, none, none, none, false⟩) noLog,
    .consume 30 false]

/-- The branch that a run leaves behind. -/
def branchAfter (es : List Event) : List SessionEntry :=
  (runFrom (step plainHost) (startSystem plainHost "session-1" []) es).elim [] (·.manager.branch)

/-- The host takes the event; then the branch is rebuilt, and restored by a new manager. -/
def takenTrace : List Event :=
  handOver ++ [.settle 0 (.ok ()), .conclude 40 0,
    .rebuild 50 (branchAfter (handOver ++ [.settle 0 (.ok ()), .conclude 40 0])),
    .construct "session-1" (branchAfter (handOver ++ [.settle 0 (.ok ()), .conclude 40 0])) false]

/-- The run in which the host takes the event is orderly, and its event is accounted for. -/
theorem wake_accounted_of_orderly_takenTrace :
    (runFrom (step plainHost) (startSystem plainHost "session-1" []) takenTrace).map
      (·.succeeded) = some ["event-1"] ∧
    Along (step plainHost) (fun s e t => Accounted t ∧ NotAgain plainHost s e)
      (startSystem plainHost "session-1" []) takenTrace := by
  refine ⟨by decide, ?_⟩
  exact (wake_accounted_of_orderly plainHost "session-1" [] takenTrace (by decide)
    (by decide)).2

/-- The process crashes while the host works on the event, and a new manager restores
the branch. -/
def crashTrace : List Event :=
  handOver ++ [.construct "session-1" (branchAfter handOver) true]

/-- **After a crash the constructor restores an event as `delivered` that no delivery
holds**; `rebuild` would have consumed it. -/
theorem crash_strands_delivered :
    ¬ Along (step plainHost) (fun s e t => Accounted t ∧ NotAgain plainHost s e)
      (startSystem plainHost "session-1" []) crashTrace := by
  decide

end BeauPi.Background
