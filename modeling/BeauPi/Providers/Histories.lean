import BeauPi.Providers.Transform
import Mathlib.Data.List.Induction

/-!
# Histories of an agent

In the histories of an agent, the results of the calls of a message follow it.

* `History` — a message list whose results follow their calls.
* `Turn`, `History.exists_turns` — a message with the results that follow it; **a history is a list
  of turns**.
* `Valid` — what a provider expects of the messages that it is sent.
* `answered_turns`, `answering_turns` — what it expects of each turn.
-/

namespace BeauPi.Providers

open Llm Machine List

/-! ## Turns -/

/-- A message with the results that follow it. -/
inductive Turn
  | user (m : UserMessage)
  | assistant (m : AssistantMessage) (results : List ToolResultMessage)

variable {msgs rest pre post out : List Message} {normalize : Option Normalizer}
  {m : AssistantMessage} {turns : List Turn}

/-! ## Histories -/

/-- The ids of the calls of a message. -/
def AssistantMessage.callIds (m : AssistantMessage) : List String := m.toolCalls.map (·.id)

/-- The results at the front. -/
def leadingResults : List Message → List ToolResultMessage
  | .toolResult r :: rest => r :: leadingResults rest
  | _ => []

/-- The closest assistant message before a place in a list, given the messages before it. -/
def closest (before : Option AssistantMessage) (messages : List Message) :
    Option AssistantMessage :=
  messages.foldl next before
where
  /-- The closest assistant message after one more message. -/
  next (before : Option AssistantMessage) : Message → Option AssistantMessage
    | .assistant m => some m
    | _ => before

/-- Each result follows the message that made its call with only results in between, a failed
message has no results, the ids of the calls of a message are distinct, and normalization keeps them
apart. -/
structure History (normalize : Option Normalizer) (messages : List Message) : Prop where
  follows : ∀ pre r post, messages = pre ++ .toolResult r :: post →
    ∃ (before : List Message) (m : AssistantMessage) (between : List ToolResultMessage),
      pre = before ++ .assistant m :: between.map .toolResult ∧ m.failed = false ∧
        r.toolCallId ∈ m.callIds
  distinct : ∀ m, .assistant m ∈ messages → m.callIds.Nodup
  injective : ∀ normalizeToolCallId ∈ normalize, ∀ m, .assistant m ∈ messages →
    ∀ a ∈ m.callIds, ∀ b ∈ m.callIds,
      normalizeToolCallId a m = normalizeToolCallId b m → a = b

/-! ## Histories are lists of turns -/

/-- The messages of a turn. -/
def Turn.messages : Turn → List Message
  | .user m => [.user m]
  | .assistant m results => .assistant m :: results.map .toolResult

/-- The results of a turn answer calls of its message, which has not failed, and the ids of the
calls stay apart. -/
def Turn.Sound (normalize : Option Normalizer) : Turn → Prop
  | .user _ => True
  | .assistant m results => (∀ r ∈ results, m.failed = false ∧ r.toolCallId ∈ m.callIds) ∧
      m.callIds.Nodup ∧ ∀ normalizeToolCallId ∈ normalize, ∀ a ∈ m.callIds, ∀ b ∈ m.callIds,
        normalizeToolCallId a m = normalizeToolCallId b m → a = b

theorem History.left (h : History normalize (pre ++ post)) : History normalize pre where
  follows := fun before r after heq => h.follows before r (after ++ post) (by simp [heq])
  distinct := fun m hmem => h.distinct m (mem_append_left _ hmem)
  injective := fun f hf m hmem => h.injective f hf m (mem_append_left _ hmem)

theorem closest_append (before : Option AssistantMessage) (pre post : List Message) :
    closest before (pre ++ post) = closest (closest before pre) post := foldl_append

theorem closest_results (before : Option AssistantMessage) (results : List ToolResultMessage) :
    closest before (results.map .toolResult) = before := by
  induction results with
  | nil => rfl
  | cons r results ih => exact ih

/-- The last turn of a list that ends with a message and its results. -/
theorem last_turn {results : List ToolResultMessage}
    (h : turns.flatMap Turn.messages = pre ++ .assistant m :: results.map .toolResult) :
    ∃ before results', turns = before ++ [.assistant m results'] := by
  rcases eq_nil_or_concat turns with rfl | ⟨before, turn, rfl⟩
  · simp at h
  · rw [concat_eq_append, flatMap_append, flatMap_singleton] at h
    have hclosest := congrArg (closest none) h
    rw [closest_append, closest_append] at hclosest
    change _ = closest (some m) (results.map .toolResult) at hclosest
    rw [closest_results] at hclosest
    cases turn with
    | user u =>
      have hlast := congrArg List.getLast? h
      rw [Turn.messages, getLast?_concat] at hlast
      rcases eq_nil_or_concat results with rfl | ⟨init, r, rfl⟩
      · simp at hlast
      · have hr : pre ++ .assistant m :: (init.concat r).map .toolResult =
            (pre ++ .assistant m :: init.map .toolResult) ++ [.toolResult r] := by simp
        rw [hr, getLast?_concat] at hlast
        cases hlast
    | assistant m' results' =>
      refine ⟨before, results', ?_⟩
      change closest (some m') (results'.map .toolResult) = _ at hclosest
      rw [closest_results] at hclosest
      rw [Option.some.inj hclosest, concat_eq_append]

/-- **A history is a list of turns.** -/
theorem History.exists_turns (h : History normalize msgs) :
    ∃ turns : List Turn, msgs = turns.flatMap Turn.messages ∧
      ∀ turn ∈ turns, turn.Sound normalize := by
  induction msgs using List.reverseRecOn with
  | nil => exact ⟨[], rfl, by simp⟩
  | append_singleton msgs last ih =>
    obtain ⟨turns, heq, hsound⟩ := ih h.left
    have hadd : ∀ turn : Turn, turn.Sound normalize → turn.messages = [last] →
        ∃ turns : List Turn, msgs ++ [last] = turns.flatMap Turn.messages ∧
          ∀ turn ∈ turns, turn.Sound normalize := by
      intro turn hturn hmessages
      refine ⟨turns ++ [turn], by simp [heq, hmessages], fun other hmem => ?_⟩
      rcases mem_append.1 hmem with hold | hnew
      · exact hsound other hold
      · rw [mem_singleton.1 hnew]
        exact hturn
    cases last with
    | user u => exact hadd (.user u) trivial rfl
    | assistant m =>
      have hmem : Message.assistant m ∈ msgs ++ [.assistant m] := by simp
      refine hadd (.assistant m []) ⟨by simp, h.distinct m hmem, ?_⟩ rfl
      exact fun f hf => h.injective f hf m hmem
    | toolResult r =>
      obtain ⟨before, m, between, hpre, hfailed, hid⟩ := h.follows msgs r [] rfl
      obtain ⟨init, results, rfl⟩ := last_turn (heq.symm.trans hpre)
      refine ⟨init ++ [.assistant m (results ++ [r])], ?_, fun turn hmem => ?_⟩
      · simp [heq, Turn.messages]
      · rcases mem_append.1 hmem with hold | hnew
        · exact hsound turn (mem_append_left _ hold)
        · obtain ⟨hresults, hdistinct⟩ := hsound (.assistant m results) (by simp)
          rw [mem_singleton.1 hnew]
          refine ⟨fun other hother => ?_, hdistinct⟩
          rcases mem_append.1 hother with hold | hlast
          · exact hresults other hold
          · rw [mem_singleton.1 hlast]
            exact ⟨hfailed, hid⟩

/-- The assistant messages of turns. -/
theorem assistant_mem_turns : .assistant m ∈ turns.flatMap Turn.messages ↔
    ∃ rs, Turn.assistant m rs ∈ turns := by
  constructor
  · intro h
    obtain ⟨turn, hturn, hmem⟩ := mem_flatMap.1 h
    cases turn with
    | user u => simp [Turn.messages] at hmem
    | assistant m' rs =>
      simp only [Turn.messages, mem_cons, Message.assistant.injEq, mem_map, reduceCtorEq,
        and_false, exists_false, or_false] at hmem
      exact ⟨rs, hmem ▸ hturn⟩
  · rintro ⟨rs, h⟩
    exact mem_flatMap.2 ⟨_, h, by simp [Turn.messages]⟩

/-- Turns are histories. -/
theorem History.of_turns (hsound : ∀ turn ∈ turns, turn.Sound normalize) :
    History normalize (turns.flatMap Turn.messages) := by
  refine ⟨fun pre r post heq => ?_, fun m hm => ?_, fun f hf m hm => ?_⟩
  · induction turns generalizing pre with
    | nil => simp at heq
    | cons turn turns ih =>
      obtain ⟨hturn, hturns⟩ := forall_mem_cons.1 hsound
      rw [flatMap_cons] at heq
      have hlater : ∀ pre', pre = turn.messages ++ pre' →
          turns.flatMap Turn.messages = pre' ++ .toolResult r :: post →
          ∃ (before : List Message) (m : AssistantMessage) (between : List ToolResultMessage),
            pre = before ++ .assistant m :: between.map .toolResult ∧ m.failed = false ∧
              r.toolCallId ∈ m.callIds := by
        intro pre' hpre hrest
        obtain ⟨before, m, between, hbefore, hcall⟩ := ih hturns pre' hrest
        exact ⟨turn.messages ++ before, m, between, by rw [hpre, hbefore, append_assoc],
          hcall⟩
      rcases append_eq_append_iff.1 heq with ⟨pre', hpre, hrest⟩ | ⟨tail, hturn', hrest⟩
      · exact hlater pre' hpre hrest
      · rcases tail with _ | ⟨first, tail⟩
        · exact hlater [] (by simpa using hturn'.symm) hrest.symm
        · obtain ⟨rfl, -⟩ := List.cons.inj hrest
          cases turn with
          | user u =>
            exact absurd (congrArg (Message.toolResult r ∈ ·) hturn') (by simp [Turn.messages])
          | assistant m rs =>
            cases pre with
            | nil => simp [Turn.messages] at hturn'
            | cons head pre =>
              obtain ⟨rfl, hrs⟩ := List.cons.inj hturn'
              obtain ⟨between, rest, rfl, rfl, hlast⟩ := map_eq_append_iff.1 hrs
              obtain ⟨r', rest', rfl, hr', -⟩ := map_eq_cons_iff.1 hlast
              cases hr'
              exact ⟨[], m, between, rfl, hturn.1 r (by simp)⟩
  · obtain ⟨rs, hmem⟩ := assistant_mem_turns.1 hm
    exact (hsound _ hmem).2.1
  · obtain ⟨rs, hmem⟩ := assistant_mem_turns.1 hm
    exact (hsound _ hmem).2.2 f hf

/-! ## Valid histories -/

/-- Every call is followed, before the next assistant or user message, by exactly one result. -/
def Answered (out : List Message) : Prop :=
  ∀ pre m post, out = pre ++ .assistant m :: post → ∀ id ∈ m.callIds,
    ((leadingResults post).map (·.toolCallId)).count id = 1

/-- Every result answers a call of the closest assistant message before it. -/
def Answering (before : Option AssistantMessage) (out : List Message) : Prop :=
  ∀ pre r post, out = pre ++ .toolResult r :: post →
    ∃ m, closest before pre = some m ∧ r.toolCallId ∈ m.callIds

/-- The results of a list. -/
def results (messages : List Message) : List ToolResultMessage :=
  messages.filterMap fun
    | .toolResult r => some r
    | _ => none

/-- A result apart from its id; no content is empty content. -/
def withoutId (r : ToolResultMessage) : ToolResultMessage :=
  { r with toolCallId := "", content := some (r.content.getD []) }

/-- The output is a valid history, in which the real results keep their content and their order. -/
structure Valid (messages out : List Message) : Prop where
  answered : Answered out
  answering : Answering none out
  finished : ∀ m, .assistant m ∈ out → m.failed = false
  real : List.Sublist ((results messages).map withoutId) ((results out).map withoutId)

/-! ## One message at a time -/

theorem answered_cons (msg : Message) : Answered (msg :: out) ↔
    (∀ m, msg = .assistant m → ∀ id ∈ m.callIds,
      ((leadingResults out).map (·.toolCallId)).count id = 1) ∧ Answered out := by
  constructor
  · intro h
    refine ⟨fun m heq => h [] m out (by rw [heq]; rfl), fun pre m post heq => ?_⟩
    exact h (msg :: pre) m post (by rw [heq]; rfl)
  · rintro ⟨hfirst, hrest⟩ pre m post heq
    cases pre with
    | nil =>
      obtain ⟨rfl, rfl⟩ := List.cons.inj heq
      exact hfirst m rfl
    | cons first pre =>
      obtain ⟨rfl, rfl⟩ := List.cons.inj heq
      exact hrest pre m post rfl

theorem answering_cons (before : Option AssistantMessage) (msg : Message) :
    Answering before (msg :: out) ↔
      (∀ r, msg = .toolResult r → ∃ m, before = some m ∧ r.toolCallId ∈ m.callIds) ∧
        Answering (closest.next before msg) out := by
  constructor
  · intro h
    refine ⟨fun r heq => h [] r out (by rw [heq]; rfl), fun pre r post heq => ?_⟩
    exact h (msg :: pre) r post (by rw [heq]; rfl)
  · rintro ⟨hfirst, hrest⟩ pre r post heq
    cases pre with
    | nil =>
      obtain ⟨rfl, rfl⟩ := List.cons.inj heq
      exact hfirst r rfl
    | cons first pre =>
      obtain ⟨rfl, rfl⟩ := List.cons.inj heq
      exact hrest pre r post rfl

/-! ## What is expected of a turn -/

/-- Every call of the message of a turn has exactly one result in it. -/
def Turn.Answered : Turn → Prop
  | .user _ => True
  | .assistant m results => ∀ id ∈ m.callIds, (results.map (·.toolCallId)).count id = 1

/-- Every result of a turn answers a call of its message. -/
def Turn.Answering : Turn → Prop
  | .user _ => True
  | .assistant m results => ∀ r ∈ results, r.toolCallId ∈ m.callIds

/-- The results of a turn. -/
def Turn.results : Turn → List ToolResultMessage
  | .user _ => []
  | .assistant _ results => results

/-- Results in front of turns. -/
theorem leadingResults_turns (turns : List Turn) (rs : List ToolResultMessage) :
    leadingResults (rs.map .toolResult ++ turns.flatMap Turn.messages) = rs := by
  induction rs with
  | nil =>
    rcases turns with _ | ⟨turn, turns⟩
    · rfl
    · cases turn <;> rfl
  | cons r rs ih =>
    exact congrArg (r :: ·) ih

theorem answered_results (rs : List ToolResultMessage) :
    Answered (rs.map .toolResult ++ rest) ↔ Answered rest := by
  induction rs with
  | nil => rfl
  | cons r rs ih =>
    rw [map_cons, cons_append, answered_cons, ih]
    exact ⟨fun h => h.2, fun h => ⟨fun m heq => (by cases heq), h⟩⟩

theorem answering_results (rs : List ToolResultMessage) :
    Answering (some m) (rs.map .toolResult ++ rest) ↔
      (∀ r ∈ rs, r.toolCallId ∈ m.callIds) ∧ Answering (some m) rest := by
  induction rs with
  | nil => simp
  | cons r rs ih =>
    rw [map_cons, cons_append, answering_cons, forall_mem_cons]
    change _ ∧ Answering (some m) _ ↔ _
    rw [ih]
    constructor
    · rintro ⟨hfirst, hrest⟩
      obtain ⟨m', heq, hmem⟩ := hfirst r rfl
      cases heq
      exact ⟨⟨hmem, hrest.1⟩, hrest.2⟩
    · rintro ⟨⟨hmem, hrs⟩, hrest⟩
      refine ⟨fun r' heq => ?_, hrs, hrest⟩
      cases heq
      exact ⟨m, rfl, hmem⟩

theorem answered_turns (turns : List Turn) :
    Answered (turns.flatMap Turn.messages) ↔ ∀ turn ∈ turns, turn.Answered := by
  induction turns with
  | nil => simp [Answered]
  | cons turn turns ih =>
    rw [flatMap_cons, forall_mem_cons, ← ih]
    cases turn with
    | user u =>
      rw [Turn.messages, singleton_append, answered_cons]
      exact ⟨fun h => ⟨trivial, h.2⟩, fun h => ⟨fun m heq => (by cases heq), h.2⟩⟩
    | assistant m rs =>
      rw [Turn.messages, cons_append, answered_cons, answered_results, leadingResults_turns]
      exact ⟨fun h => ⟨h.1 m rfl, h.2⟩, fun h => ⟨fun m' heq => (by cases heq; exact h.1), h.2⟩⟩

theorem answering_turns (turns : List Turn) (before : Option AssistantMessage) :
    Answering before (turns.flatMap Turn.messages) ↔ ∀ turn ∈ turns, turn.Answering := by
  induction turns generalizing before with
  | nil => simp [Answering]
  | cons turn turns ih =>
    rw [flatMap_cons, forall_mem_cons]
    cases turn with
    | user u =>
      rw [Turn.messages, singleton_append, answering_cons, ih]
      exact ⟨fun h => ⟨trivial, h.2⟩, fun h => ⟨fun r heq => (by cases heq), h.2⟩⟩
    | assistant m rs =>
      rw [Turn.messages, cons_append, answering_cons, closest.next, answering_results, ih]
      exact ⟨fun h => h.2, fun h => ⟨fun r heq => (by cases heq), h⟩⟩

theorem results_turns (turns : List Turn) :
    results (turns.flatMap Turn.messages) = turns.flatMap Turn.results := by
  induction turns with
  | nil => rfl
  | cons turn turns ih =>
    rw [flatMap_cons, results, filterMap_append, ← results, ← results, ih,
      flatMap_cons]
    cases turn with
    | user u => rfl
    | assistant m rs =>
      congr 1
      change List.filterMap _ (rs.map Message.toolResult) = rs
      rw [filterMap_map]
      exact filterMap_some

end BeauPi.Providers
