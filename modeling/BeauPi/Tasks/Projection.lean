import BeauPi.Tasks.Acceptance
import BeauPi.Tasks.Persistence
import BeauPi.Js.JsonRoundTrip

/-!
# Dynamic Tasks: the projection into the prompt

`getPromptProjection` writes the plan into the prompt, one line a task, as far as 6000 characters
reach.  Whether a task line fits is checked before it is added; the line that counts the omitted
tasks takes its place unchecked.

* `taskLine`, `addTaskLines`, `getPromptProjection` — the projection.
* `AccountsForTasks` — the lines are those of the first tasks, and the others are counted.
* `LeavesRoom` — where the first line that does not fit leaves room for the count.
* `projection_bounded_iff` — **exactly then the projection keeps to 6000 characters.**
-/

namespace BeauPi.Tasks

open Machine List
open Js (utf16Length utf16Length_literal isIdentifier utf16Length_append utf16Width)

/-! ## The lines -/

/-- The dependencies of a task, in its line. -/
def dependenciesPart (task : DynamicTaskItemV1) : String :=
  if task.dependsOn.isEmpty then ""
  else " · depends on " ++ promptValue (", ".intercalate task.dependsOn) 100

/-- The activity of a task, in its line. -/
def activityPart (task : DynamicTaskItemV1) : String :=
  match task.activity with
  | some activity => if activity.isEmpty then "" else " · " ++ promptValue activity 140
  | none => ""

/-- The last evidence of a task, in its line. -/
def evidencePart (task : DynamicTaskItemV1) : String :=
  if task.evidence.isEmpty then ""
  else " · evidence " ++
    ", ".intercalate ((Js.sliceLast 2 task.evidence).map fun id => promptValue id 70)

/-- The line of a task. -/
def taskLine (task : DynamicTaskItemV1) : String :=
  "- " ++ task.id ++ " [" ++ task.status.name ++ "] " ++ promptValue task.title 140 ++
    dependenciesPart task ++ activityPart task ++ evidencePart task

/-- The line that counts the tasks without a line. -/
def omissionLine (omitted : Nat) : String := "- … " ++ toString omitted ++ " tasks omitted"

/-- The lines before the tasks. -/
def headerLines (plan : DynamicTaskPlanV1) : List String :=
  ["<dynamic_tasks revision=\"" ++ String.ofList (Json.numberText plan.revision) ++ "\">",
    "goal: " ++ promptValue plan.goal 300,
    "progress: " ++ toString (plan.tasks.filter fun task => task.status = .completed).length ++
      "/" ++ toString plan.tasks.length ++ " completed"]

/-- The lines after the tasks. -/
def closingLines : List String :=
  ["Only the Coordinator may change Task structure. Keep Task titles as short mid-level phase " ++
      "labels with one or two distinguishing domain nouns (about 15 Chinese characters or an " ++
      "equivalently brief phrase), and use the projected revision for expectedRevision.",
    "</dynamic_tasks>"]

/-- The projection without a plan, when the first one is wanted. -/
def initialPlanLines : List String :=
  ["<dynamic_tasks required=\"initial_plan\">",
    "This is an executable user task. In the existing first model turn, call tasks_update once " ++
      "with version 1, expectedRevision 0, and reason initial_plan before the first mutation.",
    "A coarse 3-7 Task plan is sufficient before read-only discovery. Use concise mid-level " ++
      "phase titles that retain one or two distinguishing domain nouns (for example PrivilegeRuntime, " ++
      "tmux, sudo, or TUI), normally around 15 Chinese characters or an equivalently short " ++
      "phrase. Avoid commands, paths, key sequences, and step-by-step details. This is a soft " ++
      "style target, not a validation limit.",
    "Do not expose JSON to the user and do not create one Task per file or command.",
    "</dynamic_tasks>"]

/-- `lines.join("\n")`. -/
def joinLines (lines : List String) : String := "\n".intercalate lines

/-- The bound of the projection. -/
def maxProjection : Nat := 6000

/-- The loop over the tasks, with the lines written so far. -/
def addTaskLines (total : Nat) : List String → List DynamicTaskItemV1 → List String
  | lines, [] => lines
  | lines, task :: tasks =>
    if maxProjection < Js.utf16Length (joinLines (lines ++ [taskLine task] ++ closingLines)) then
      lines ++ [omissionLine (total - (lines.length - 3))]
    else addTaskLines total (lines ++ [taskLine task]) tasks

/-- The line of the refresh reminder, if there is one and it fits. -/
def reminderLines (refreshReminder : Option String) (lines : List String) : List String :=
  match refreshReminder with
  | some message =>
    if message.isEmpty then []
    else
      let reminder := "reminder: " ++ promptValue message 400
      if Js.utf16Length (joinLines (lines ++ [reminder] ++ closingLines)) ≤ maxProjection then
        [reminder]
      else []
  | none => []

/-- `getPromptProjection`. -/
def getPromptProjection (consumeReminder : Bool) (s : DynamicTaskRuntime) :
    Option String × DynamicTaskRuntime :=
  match s.snapshot with
  | none => (if s.initialPlanRequired then some (joinLines initialPlanLines) else none, s)
  | some snapshot =>
    let lines := addTaskLines snapshot.tasks.length (headerLines snapshot) snapshot.tasks
    (some (joinLines (lines ++ reminderLines s.refreshReminder lines ++ closingLines)),
      if consumeReminder then { s with refreshReminder := none } else s)

/-! ## What is asked of the text -/

/-- `text.split("\n")`. -/
def splitLines (text : String) : List String := (text.toList.splitOn '\n').map String.ofList

/-- The lines of the text are the header, the lines of the first tasks, the count of the others if
there are any, at most a reminder, and the closing lines. -/
def AccountsForTasks (plan : DynamicTaskPlanV1) (text : String) : Prop :=
  ∃ projected ≤ plan.tasks.length, ∃ reminder : List String,
    (∀ line ∈ reminder, ∃ message, line = "reminder: " ++ message) ∧ reminder.length ≤ 1 ∧
    splitLines text = headerLines plan ++ (plan.tasks.take projected).map taskLine ++
      (if projected < plan.tasks.length then [omissionLine (plan.tasks.length - projected)]
        else []) ++ reminder ++ closingLines

/-- The length of the projection of the first `k` tasks. -/
def used (plan : DynamicTaskPlanV1) (k : Nat) : Nat :=
  Js.utf16Length (joinLines (headerLines plan ++ (plan.tasks.take k).map taskLine ++ closingLines))

/-- Where the line of a task is the first that does not fit, the count of the omitted tasks fits
in its place. -/
def LeavesRoom (plan : DynamicTaskPlanV1) : Prop :=
  ∀ k < plan.tasks.length, (∀ j < k, used plan (j + 1) ≤ maxProjection) →
    maxProjection < used plan (k + 1) →
    used plan k + 1 + Js.utf16Length (omissionLine (plan.tasks.length - k)) ≤ maxProjection

variable {plan : DynamicTaskPlanV1} {task : DynamicTaskItemV1} {lines : List String}

/-! ## The length of the lines -/

theorem utf16Length_joinLines (h : lines ≠ []) :
    utf16Length (joinLines lines) + 1 = (lines.map fun line => utf16Length line + 1).sum := by
  have hnewline : utf16Length "\n" = 1 := by decide
  have hsum := Js.utf16Length_intercalate "\n" h
  rwa [hnewline] at hsum

/-- Every line brings its characters and a line break. -/
theorem utf16Length_joinLines_insert (extra : List String) (h : lines ≠ []) :
    utf16Length (joinLines (lines ++ extra ++ closingLines)) =
      utf16Length (joinLines (lines ++ closingLines)) +
        (extra.map fun line => utf16Length line + 1).sum := by
  have h₁ := @utf16Length_joinLines (lines ++ extra ++ closingLines) (by simp [h])
  have h₂ := @utf16Length_joinLines (lines ++ closingLines) (by simp [h])
  simp only [map_append, sum_append] at h₁ h₂
  omega

theorem used_succ {k : Nat} (hk : k < plan.tasks.length) :
    used plan (k + 1) = utf16Length (joinLines (headerLines plan ++
      (plan.tasks.take k).map taskLine ++ [taskLine plan.tasks[k]] ++ closingLines)) := by
  rw [used, take_succ_eq_append_getElem hk, map_append, ← append_assoc]
  rfl

/-! ## The loop -/

/-- The lines of the first tasks, and the count of the others if there are any. -/
def shownLines (plan : DynamicTaskPlanV1) (projected : Nat) : List String :=
  headerLines plan ++ (plan.tasks.take projected).map taskLine ++
    (if projected < plan.tasks.length then [omissionLine (plan.tasks.length - projected)] else [])

/-- So many task lines fit, and the next one does not. -/
structure Projects (plan : DynamicTaskPlanV1) (projected : Nat) : Prop where
  le : projected ≤ plan.tasks.length
  fits : ∀ j < projected, used plan (j + 1) ≤ maxProjection
  full : projected < plan.tasks.length → maxProjection < used plan (projected + 1)

/-- **The loop** adds lines as long as they fit. -/
theorem addTaskLines_spec : ∀ (rest : List DynamicTaskItemV1) (k : Nat), k ≤ plan.tasks.length →
    plan.tasks.drop k = rest → (∀ j < k, used plan (j + 1) ≤ maxProjection) →
    ∃ projected, Projects plan projected ∧
      addTaskLines plan.tasks.length (headerLines plan ++ (plan.tasks.take k).map taskLine) rest =
        shownLines plan projected := by
  intro rest
  induction rest with
  | nil =>
    intro k hk hdrop hfits
    have hlength : k = plan.tasks.length := by
      have := List.drop_eq_nil_iff.1 hdrop
      omega
    refine ⟨k, ⟨hk, hfits, fun hlt => absurd hlt (by omega)⟩, ?_⟩
    rw [addTaskLines, shownLines, if_neg (by omega), append_nil]
  | cons task rest ih =>
    intro k hk hdrop hfits
    have hlt : k < plan.tasks.length := by
      by_contra hge
      rw [drop_eq_nil_of_le (Nat.le_of_not_lt hge)] at hdrop
      cases hdrop
    rw [drop_eq_getElem_cons hlt] at hdrop
    obtain ⟨rfl, hrest⟩ := List.cons.inj hdrop
    rw [addTaskLines, ← used_succ hlt]
    by_cases hfull : maxProjection < used plan (k + 1)
    · -- the task does not fit: the count of the tasks from here on takes its place
      refine ⟨k, ⟨hk, hfits, fun _ => hfull⟩, ?_⟩
      have hcount : (headerLines plan ++ (plan.tasks.take k).map taskLine).length - 3 = k := by
        simp [headerLines, Nat.min_eq_left hk]
      rw [if_pos hfull, hcount, shownLines, if_pos hlt]
    · have htake : headerLines plan ++ (plan.tasks.take k).map taskLine ++
          [taskLine plan.tasks[k]] =
          headerLines plan ++ (plan.tasks.take (k + 1)).map taskLine := by
        rw [take_succ_eq_append_getElem hlt, map_append, ← append_assoc]
        rfl
      rw [if_neg hfull, htake]
      refine ih (k + 1) hlt hrest ?_
      intro j hj
      rcases Nat.lt_succ_iff_lt_or_eq.1 hj with hj | rfl
      · exact hfits j hj
      · exact Nat.le_of_not_lt hfull

/-- The projection shows the tasks that fit, and a reminder that fits behind them. -/
theorem getPromptProjection_spec {s : DynamicTaskRuntime} (hs : s.snapshot = some plan)
    (consumeReminder : Bool) :
    ∃ projected, Projects plan projected ∧
      (getPromptProjection consumeReminder s).1 = some (joinLines (shownLines plan projected ++
        reminderLines s.refreshReminder (shownLines plan projected) ++ closingLines)) := by
  obtain ⟨projected, hprojects, hlines⟩ :=
    @addTaskLines_spec plan plan.tasks 0 (Nat.zero_le _) rfl
      fun j hj => absurd hj (Nat.not_lt_zero j)
  rw [take_zero, map_nil, append_nil] at hlines
  refine ⟨projected, hprojects, ?_⟩
  unfold getPromptProjection
  rw [hs]
  simp only
  rw [hlines]

/-! ## The bound -/

theorem shownLines_ne_nil (projected : Nat) : shownLines plan projected ≠ [] := by
  simp [shownLines, headerLines]

/-- The length without a reminder. -/
theorem utf16Length_shownLines (projected : Nat) :
    utf16Length (joinLines (shownLines plan projected ++ closingLines)) =
      used plan projected + if projected < plan.tasks.length then
        utf16Length (omissionLine (plan.tasks.length - projected)) + 1 else 0 := by
  rw [shownLines, utf16Length_joinLines_insert _ (by simp [headerLines]), ← used]
  split <;> simp

/-- A reminder is added only where it fits. -/
theorem reminder_bounded_iff (refreshReminder : Option String) (h : lines ≠ []) :
    utf16Length (joinLines (lines ++ reminderLines refreshReminder lines ++ closingLines)) ≤
        maxProjection ↔
      utf16Length (joinLines (lines ++ closingLines)) ≤ maxProjection := by
  have hempty : lines ++ [] ++ closingLines = lines ++ closingLines := by rw [append_nil]
  cases refreshReminder with
  | none => rw [reminderLines, hempty]
  | some message =>
    unfold reminderLines
    dsimp only
    by_cases hmessage : message.isEmpty
    · rw [if_pos hmessage, hempty]
    · rw [if_neg hmessage]
      split
      next hfits =>
        have hinsert := utf16Length_joinLines_insert ["reminder: " ++ promptValue message 400] h
        constructor
        · intro _
          omega
        · exact fun _ => hfits
      next => rw [hempty]

/-- The tasks that fit leave room for the count of the others exactly if the plan leaves room. -/
theorem Projects.leavesRoom_iff {projected : Nat} (h : Projects plan projected)
    (hnonempty : 1 ≤ plan.tasks.length) :
    utf16Length (joinLines (shownLines plan projected ++ closingLines)) ≤ maxProjection ↔
      LeavesRoom plan := by
  rw [utf16Length_shownLines]
  constructor
  · intro hle k hk hfits hfull
    -- the task that does not fit is the first one behind those that are shown
    have hprojected : k = projected := by
      rcases Nat.lt_trichotomy k projected with hlt | heq | hgt
      · have := h.fits k hlt
        omega
      · exact heq
      · have h₁ := hfits projected hgt
        have h₂ := h.full (hgt.trans hk)
        omega
    subst hprojected
    rw [if_pos hk] at hle
    omega
  · intro hroom
    split
    next hlt =>
      have := hroom projected hlt h.fits (h.full hlt)
      omega
    next hge =>
      have hall : projected = plan.tasks.length := by
        have := h.le
        omega
      have hlast := h.fits (plan.tasks.length - 1) (by omega)
      rw [Nat.sub_add_cancel hnonempty] at hlast
      rw [hall]
      omega

/-! ## The lines of the text -/

/-- A text without a line break. -/
def OneLine (text : String) : Prop := '\n' ∉ text.toList

instance (text : String) : Decidable (OneLine text) := inferInstanceAs (Decidable (_ ∉ _))

/-- A literal is the text of its characters. -/
theorem OneLine.literal {cs : List Char} (h : '\n' ∉ cs) : OneLine (String.ofList cs) := by
  rwa [OneLine, String.toList_ofList]

theorem OneLine.append {s t : String} (hs : OneLine s) (ht : OneLine t) : OneLine (s ++ t) := by
  unfold OneLine at *
  simp [hs, ht]

theorem OneLine.intercalate {sep : String} (hsep : OneLine sep) : ∀ {texts : List String},
    (∀ text ∈ texts, OneLine text) → OneLine (sep.intercalate texts)
  | [], _ => by simp [OneLine]
  | [text], h => by simpa using h text (by simp)
  | text :: next :: rest, h => by
    rw [String.intercalate_cons_cons]
    exact ((h text (by simp)).append hsep).append
      (OneLine.intercalate hsep fun t ht => h t (mem_cons_of_mem _ ht))

theorem oneLine_toString (n : Nat) : OneLine (toString n) := by
  intro h
  have hdigit := Json.isDigit_natDigits '\n' h
  exact absurd hdigit (by decide)

theorem oneLine_promptValue (value : String) (maxCharacters : Nat) :
    OneLine (promptValue value maxCharacters) := by
  have hline : ∀ c ∈ (Js.oneLine value).toList, c ≠ '\n' := by
    rintro c hc rfl
    exact absurd (Js.isSpace_oneLine hc (by decide)) (by decide)
  unfold promptValue
  dsimp only
  split
  next => exact fun h => hline _ h rfl
  next =>
    refine OneLine.append ?_ (by decide)
    intro h
    rw [Js.sliceTo, String.toList_ofList] at h
    rcases Js.mem_sliceToChars _ _ h with h | h
    · exact hline _ h rfl
    · exact absurd h (by decide)

/-- The ids of tasks are identifiers. -/
theorem oneLine_of_isIdentifier {id : String} (h : isIdentifier id = true) : OneLine id := by
  unfold isIdentifier at h
  unfold OneLine
  cases hid : id.toList with
  | nil => simp
  | cons c cs =>
    rw [hid] at h
    simp only [Bool.and_eq_true, all_eq_true] at h
    intro hmem
    rcases List.mem_cons.1 hmem with rfl | hmem
    · exact absurd h.1 (by decide)
    · exact absurd (h.2 _ hmem) (by decide)

theorem oneLine_taskLine (hid : isIdentifier task.id = true) : OneLine (taskLine task) := by
  have hdependencies : OneLine (dependenciesPart task) := by
    unfold dependenciesPart
    split
    next => decide
    next => exact OneLine.append (by decide) (oneLine_promptValue _ _)
  have hactivity : OneLine (activityPart task) := by
    unfold activityPart
    split
    next activity _ =>
      split
      next => decide
      next => exact OneLine.append (by decide) (oneLine_promptValue _ _)
    next => decide
  have hevidence : OneLine (evidencePart task) := by
    unfold evidencePart
    split
    next => decide
    next =>
      refine OneLine.append (by decide) (OneLine.intercalate (by decide) ?_)
      intro text htext
      obtain ⟨id, -, rfl⟩ := List.mem_map.1 htext
      exact oneLine_promptValue _ _
  have hstatus : OneLine task.status.name := by cases task.status <;> decide
  have hid := oneLine_of_isIdentifier hid
  unfold taskLine
  exact ((((((OneLine.append (by decide) hid).append (by decide)).append hstatus).append
    (by decide)).append (oneLine_promptValue _ _)).append hdependencies).append hactivity
    |>.append hevidence

theorem oneLine_omissionLine (n : Nat) : OneLine (omissionLine n) :=
  (OneLine.append (by decide) (oneLine_toString n)).append (by decide)

theorem oneLine_headerLines : ∀ line ∈ headerLines plan, OneLine line := by
  have hrevision : OneLine (String.ofList (Json.numberText plan.revision)) := by
    unfold OneLine
    rw [String.toList_ofList]
    exact Json.newline_not_mem_numberText _
  intro line hline
  simp only [headerLines, mem_cons, not_mem_nil, or_false] at hline
  rcases hline with rfl | rfl | rfl
  · exact (OneLine.append (by decide) hrevision).append (by decide)
  · exact OneLine.append (by decide) (oneLine_promptValue _ _)
  · exact (((OneLine.append (by decide) (oneLine_toString _)).append (by decide)).append
      (oneLine_toString _)).append (by decide)

theorem oneLine_closingLines : ∀ line ∈ closingLines, OneLine line := by
  intro line hline
  simp only [closingLines, mem_cons, not_mem_nil, or_false] at hline
  rcases hline with rfl | rfl
  · exact ((OneLine.literal (by decide)).append (OneLine.literal (by decide))).append
      (OneLine.literal (by decide))
  · exact OneLine.literal (by decide)

/-- The length of the closing lines, each with its line break. -/
theorem sum_closingLines : (closingLines.map fun line => utf16Length line + 1).sum = 274 := by
  have h₁ : utf16Length
      "Only the Coordinator may change Task structure. Keep Task titles as short mid-level phase " =
      90 := utf16Length_literal (by decide)
  have h₂ : utf16Length
      "labels with one or two distinguishing domain nouns (about 15 Chinese characters or an " =
      86 := utf16Length_literal (by decide)
  have h₃ : utf16Length
      "equivalently brief phrase), and use the projected revision for expectedRevision." = 80 :=
    utf16Length_literal (by decide)
  have h₄ : utf16Length "</dynamic_tasks>" = 16 := utf16Length_literal (by decide)
  simp only [closingLines, map_cons, map_nil, sum_cons, sum_nil,
    utf16Length_append, h₁, h₂, h₃, h₄]
  rfl

/-- Every line takes its characters and a line break, but the last. -/
theorem used_add_one (plan : DynamicTaskPlanV1) (k : Nat) :
    used plan k + 1 = ((headerLines plan).map fun line => utf16Length line + 1).sum +
      (((plan.tasks.take k).map taskLine).map fun line => utf16Length line + 1).sum + 274 := by
  rw [used, utf16Length_joinLines (by simp [closingLines]), map_append, map_append,
    sum_append, sum_append, sum_closingLines]

/-- Lines without line breaks are found again. -/
theorem splitLines_joinLines (hne : lines ≠ []) (h : ∀ line ∈ lines, OneLine line) :
    splitLines (joinLines lines) = lines := by
  have hsplit : (['\n'].intercalate (lines.map String.toList)).splitOn '\n' =
      lines.map String.toList := by
    refine splitOn_intercalate '\n' ?_ (by simpa using hne)
    intro l hl
    obtain ⟨line, hline, rfl⟩ := List.mem_map.1 hl
    exact h line hline
  unfold splitLines joinLines
  rw [String.toList_intercalate]
  show ((['\n'].intercalate (lines.map String.toList)).splitOn '\n').map String.ofList = lines
  rw [hsplit, map_map]
  simp [Function.comp_def]

/-- There is at most one reminder. -/
theorem reminderLines_spec (refreshReminder : Option String) (lines : List String) :
    (∀ line ∈ reminderLines refreshReminder lines,
      ∃ message, line = "reminder: " ++ promptValue message 400) ∧
    (reminderLines refreshReminder lines).length ≤ 1 := by
  cases refreshReminder with
  | none => simp [reminderLines]
  | some message =>
    unfold reminderLines
    dsimp only
    split
    next => simp
    next =>
      split
      next => exact ⟨fun line hline => ⟨message, List.mem_singleton.1 hline⟩, le_refl _⟩
      next => simp

/-- The text of the projection accounts for every task. -/
theorem Projects.accountsForTasks {projected : Nat} (h : Projects plan projected)
    (hids : ∀ task ∈ plan.tasks, isIdentifier task.id = true)
    (refreshReminder : Option String) :
    AccountsForTasks plan (joinLines (shownLines plan projected ++
      reminderLines refreshReminder (shownLines plan projected) ++ closingLines)) := by
  obtain ⟨hreminder, hone⟩ := reminderLines_spec refreshReminder (shownLines plan projected)
  refine ⟨projected, h.le, _, ?_, hone, ?_⟩
  · intro line hline
    obtain ⟨message, rfl⟩ := hreminder line hline
    exact ⟨_, rfl⟩
  · refine splitLines_joinLines (by simp [shownLines_ne_nil]) ?_
    intro line hline
    rw [mem_append, mem_append, shownLines, mem_append, mem_append] at hline
    rcases hline with (((hline | hline) | hline) | hline) | hline
    · exact oneLine_headerLines line hline
    · obtain ⟨task, htask, rfl⟩ := List.mem_map.1 hline
      exact oneLine_taskLine (hids task (mem_of_mem_take htask))
    · split at hline
      next =>
        obtain rfl := List.mem_singleton.1 hline
        exact oneLine_omissionLine _
      next => cases hline
    · obtain ⟨message, rfl⟩ := hreminder line hline
      exact OneLine.append (by decide) (oneLine_promptValue _ _)
    · exact oneLine_closingLines line hline

/-- **The projection of an accepted plan keeps to 6000 characters and accounts for every task if
and only if the first task line that does not fit leaves room for the count.** -/
theorem projection_bounded_iff {host : Host} {value : Json}
    (hplan : validateDynamicTaskPlan host value = .ok plan) {s : DynamicTaskRuntime}
    (hs : s.snapshot = some plan) (consumeReminder : Bool) :
    ∃ text, (getPromptProjection consumeReminder s).1 = some text ∧
      ((Js.utf16Length text ≤ maxProjection ∧ AccountsForTasks plan text) ↔ LeavesRoom plan) := by
  have hfields := (validateDynamicTaskPlan_sound hplan).fields
  obtain ⟨projected, hprojects, htext⟩ := getPromptProjection_spec hs consumeReminder
  refine ⟨_, htext, ?_⟩
  rw [reminder_bounded_iff _ (shownLines_ne_nil projected),
    hprojects.leavesRoom_iff hfields.nonempty]
  constructor
  · exact fun h => h.1
  · exact fun h => ⟨h, hprojects.accountsForTasks
      (fun task htask => (hfields.tasks task htask).id.2) _⟩

/-! ## Plans that do not fit -/

/-- A text of one letter. -/
def filler (n : Nat) : String := String.ofList (List.replicate n 'a')

/-- The ids of the tasks. -/
def longIds : List String := ["a", "b", "c", "d", "e", "f", "g", "h", "i", "j", "k", "l", "m", "n"]

/-- A task with long texts. -/
def longTask (id : String) : DynamicTaskItemV1 :=
  { id, title := filler 140, status := .active, dependsOn := [], matchHints := []
    activity := some (filler 140), evidence := [filler 69, filler 70], blockedBy := []
    createdAt := 0, updatedAt := 0, completedAt := none }

/-- A fact with a long id. -/
def longFact (sequence length : Nat) : DynamicTaskFactV1 :=
  { sequence, id := filler length, kind := .tool, ref := "r", status := .started, summary := "s"
    path := none, createdAt := 0 }

/-- Fourteen tasks with long texts, and a goal of `n` characters. -/
def longPlan (n : Nat) : DynamicTaskPlanV1 :=
  { planId := "p", revision := 1, goal := filler n, createdAt := 0, updatedAt := 0
    factSequence := 2, tasks := longIds.map longTask, facts := [longFact 1 69, longFact 2 70] }

theorem utf16Length_filler (n : Nat) : utf16Length (filler n) = n := by
  have hwidth : utf16Width 'a' = 1 := by decide
  rw [filler, Js.utf16Length_ofList]
  simp [Js.utf16LengthChars, hwidth]

theorem length_filler (n : Nat) : (filler n).length = n := by
  simp [filler]

theorem filler_injective {n m : Nat} (h : filler n = filler m) : n = m := by
  rw [← length_filler n, h, length_filler]

theorem promptValue_filler {n maxCharacters : Nat} (h : n ≤ maxCharacters) :
    promptValue (filler n) maxCharacters = filler n := by
  have hline : Js.oneLine (filler n) = filler n := by
    refine Js.oneLine_eq_self ?_
    intro c hc
    rw [filler, String.toList_ofList] at hc
    rw [eq_of_mem_replicate hc]
    decide
  unfold promptValue
  dsimp only
  rw [hline, utf16Length_filler, if_pos h]

theorem utf16Length_taskLine_longTask {id : String} (h : id ∈ longIds) :
    utf16Length (taskLine (longTask id)) = 449 := by
  have hid : ∀ id ∈ longIds, utf16Length id = 1 := by decide
  have h₁ : utf16Length "- " = 2 := utf16Length_literal (by decide)
  have h₂ : utf16Length " [" = 2 := utf16Length_literal (by decide)
  have h₃ : utf16Length "active" = 6 := utf16Length_literal (by decide)
  have h₄ : utf16Length "] " = 2 := utf16Length_literal (by decide)
  have h₅ : utf16Length " · " = 3 := utf16Length_literal (by decide)
  have h₆ : utf16Length " · evidence " = 12 := utf16Length_literal (by decide)
  have h₇ : utf16Length ", " = 2 := utf16Length_literal (by decide)
  have hactivity : activityPart (longTask id) = " · " ++ filler 140 := by
    have hne : (filler 140).isEmpty = false := by
      rw [Bool.eq_false_iff]
      intro hempty
      exact absurd (@filler_injective 140 0 (String.isEmpty_iff.1 hempty)) (by decide)
    show (if (filler 140).isEmpty then "" else " · " ++ promptValue (filler 140) 140) = _
    rw [hne, promptValue_filler (le_refl _)]
    rfl
  have hevidence : evidencePart (longTask id) =
      " · evidence " ++ (filler 69 ++ ", " ++ filler 70) := by
    show " · evidence " ++
      ", ".intercalate [promptValue (filler 69) 70, promptValue (filler 70) 70] = _
    rw [promptValue_filler (by decide), promptValue_filler (le_refl _)]
    rfl
  have htitle : promptValue (longTask id).title 140 = filler 140 := promptValue_filler (le_refl _)
  have hdependencies : dependenciesPart (longTask id) = "" := rfl
  have hstatus : (longTask id).status.name = "active" := rfl
  have hname : (longTask id).id = id := rfl
  rw [taskLine, htitle, hdependencies, hactivity, hevidence, hstatus, hname]
  simp only [utf16Length_append, utf16Length_filler, hid id h, h₁, h₂, h₃, h₄, h₅, h₆, h₇]
  decide

/-- Every task line takes 450 characters. -/
theorem used_longPlan {k n : Nat} (hn : n ≤ 300) (h : k ≤ 14) :
    used (longPlan n) k = 334 + n + 450 * k := by
  have htasks : ((((longPlan n).tasks.take k).map taskLine).map fun line =>
      utf16Length line + 1).sum = 450 * k := by
    have hall : ∀ m ∈ (((longPlan n).tasks.take k).map taskLine).map fun line =>
        utf16Length line + 1, m = 450 := by
      intro m hm
      obtain ⟨line, hline, rfl⟩ := List.mem_map.1 hm
      obtain ⟨task, htask, rfl⟩ := List.mem_map.1 hline
      obtain ⟨id, hid, rfl⟩ := List.mem_map.1 (mem_of_mem_take htask)
      rw [utf16Length_taskLine_longTask hid]
    have hlength : (longPlan n).tasks.length = 14 := rfl
    rw [eq_replicate_of_mem hall, sum_replicate_nat]
    simp only [length_map, length_take, hlength]
    omega
  have hheader : ((headerLines (longPlan n)).map fun line => utf16Length line + 1).sum = 61 + n := by
    have h₁ : utf16Length "<dynamic_tasks revision=\"1\">" = 28 :=
      utf16Length_literal (by decide)
    have h₂ : utf16Length "goal: " = 6 := utf16Length_literal (by decide)
    have h₃ : utf16Length "progress: 0/14 completed" = 24 := utf16Length_literal (by decide)
    have hrevision : "<dynamic_tasks revision=\"" ++ String.ofList (Json.numberText 1) ++ "\">" =
        "<dynamic_tasks revision=\"1\">" := by decide
    have hprogress : "progress: " ++ toString ((longIds.map longTask).filter fun task =>
        task.status = .completed).length ++ "/" ++ toString (longIds.map longTask).length ++
        " completed" = "progress: 0/14 completed" := by decide
    have hlines : headerLines (longPlan n) = ["<dynamic_tasks revision=\"1\">",
        "goal: " ++ promptValue (filler n) 300, "progress: 0/14 completed"] :=
      congrArg₂ cons hrevision (congrArg (cons _) (congrArg₂ cons hprogress rfl))
    rw [hlines, promptValue_filler hn]
    simp only [map_cons, map_nil, sum_cons, sum_nil, utf16Length_append,
      utf16Length_filler, h₁, h₂, h₃]
    ring
  have hused := used_add_one (longPlan n) k
  rw [htasks, hheader] at hused
  omega

/-- Behind the twelfth task there is room for six characters. -/
theorem not_leavesRoom_longPlan : ¬ LeavesRoom (longPlan 260) := by
  have homission : utf16Length (omissionLine 2) = 19 := by decide
  intro h
  have hroom := h 12 (by decide) (fun j hj => by
    rw [used_longPlan (by decide) (by omega), maxProjection]
    omega) (by
    rw [used_longPlan (by decide) (by omega), maxProjection]
    omega)
  rw [used_longPlan (by decide) (by omega)] at hroom
  have hcount : (longPlan 260).tasks.length - 12 = 2 := rfl
  rw [hcount, homission, maxProjection] at hroom
  omega

/-- With a shorter goal there is room for the count. -/
theorem leavesRoom_longPlan : LeavesRoom (longPlan 200) := by
  have hused : ∀ k ≤ 14, used (longPlan 200) k = 534 + 450 * k := fun k hk =>
    used_longPlan (by decide) hk
  have hcount : (longPlan 200).tasks.length - 12 = 2 := rfl
  have homission : utf16Length (omissionLine 2) = 19 := by decide
  intro k hk hbefore hfull
  have hk14 : k < 14 := hk
  obtain rfl : k = 12 := by
    rcases Nat.lt_trichotomy k 12 with hlt | heq | hgt
    · rw [hused _ (by omega), maxProjection] at hfull
      omega
    · exact heq
    · have hmore := hbefore 12 hgt
      rw [hused _ (by decide), maxProjection] at hmore
      omega
  rw [hcount, homission, hused _ (by decide), maxProjection]
  decide

theorem quotedWidth_filler (n : Nat) : Json.quotedWidth (filler n) = n + 2 := by
  have hwidth : utf16Width 'a' = 1 := by decide
  have hescape : Json.escapeChar 'a' = ['a'] := by decide
  have hquote : utf16Width '"' = 1 := by decide
  have hflat : (List.replicate n 'a').flatMap Json.escapeChar = List.replicate n 'a' := by
    induction n with
    | zero => rfl
    | succ n ih => rw [replicate_succ, flatMap_cons, hescape, ih]; rfl
  have hlength : Js.utf16LengthChars (List.replicate n 'a') = n := by
    simp [Js.utf16LengthChars, hwidth]
  rw [Json.quotedWidth, filler, String.toList_ofList, Json.quoteText, hflat]
  simp only [Js.utf16LengthChars_cons, Js.utf16LengthChars_append, Js.utf16LengthChars_nil, hquote,
    hlength]
  omega

theorem numberWidth_digit : Json.numberWidth 0 = 1 ∧ Json.numberWidth (1 : Nat) = 1 ∧
    Json.numberWidth (2 : Nat) = 1 := by decide

theorem width_longTask {id : String} (h : id ∈ longIds) :
    Json.width ((dynamicTaskItemShape plainHost).write (longTask id)) = 565 := by
  have hid : ∀ id ∈ longIds, Json.quotedWidth id = 3 := by decide
  have hstatus : Json.quotedWidth DynamicTaskStatus.active.name = 8 :=
    Json.quotedWidth_literal (by decide)
  have hevidence : Json.widthItems ([filler 69, filler 70].map .str) = 145 := by
    simp only [map_cons, map_nil, Json.widthItems, Json.width, quotedWidth_filler]
  rw [width_task]
  simp only [longTask, hid id h, hstatus, hevidence, quotedWidth_filler, optionalWidth,
    Option.map_some, Option.map_none, Option.getD_some, Option.getD_none, map_nil,
    Json.widthItems, numberWidth_digit.1]
  decide

theorem width_longFact {sequence n : Nat} (h : Json.numberWidth sequence = 1) :
    Json.width ((dynamicTaskFactShape plainHost).write (longFact sequence n)) = n + 105 := by
  have h₁ : Json.quotedWidth DynamicTaskFactKind.tool.name = 6 :=
    Json.quotedWidth_literal (by decide)
  have h₂ : Json.quotedWidth "r" = 3 := Json.quotedWidth_literal (by decide)
  have h₃ : Json.quotedWidth DynamicTaskFactStatus.started.name = 9 :=
    Json.quotedWidth_literal (by decide)
  have h₄ : Json.quotedWidth "s" = 3 := Json.quotedWidth_literal (by decide)
  rw [width_fact]
  simp only [longFact, h, h₁, h₂, h₃, h₄, quotedWidth_filler, optionalWidth, Option.map_none,
    Option.getD_none, numberWidth_digit.1]
  omega

/-- The long plan takes less than 9000 characters. -/
theorem withinBudget_longPlan {n : Nat} (hn : n ≤ 300) : WithinBudget plainHost (longPlan n) := by
  have hplanId : Json.quotedWidth (longPlan n).planId = 3 := Json.quotedWidth_literal (by decide)
  have hgoal : Json.quotedWidth (longPlan n).goal = n + 2 := quotedWidth_filler n
  have htasks : ∀ ids : List String, (∀ id ∈ ids, id ∈ longIds) →
      Json.widthItems ((ids.map longTask).map (dynamicTaskItemShape plainHost).write) =
        566 * ids.length := by
    intro ids
    induction ids with
    | nil => intro _; rfl
    | cons id ids ih =>
      intro h
      rw [map_cons, map_cons, Json.widthItems, width_longTask (h id (by simp)),
        ih fun i hi => h i (mem_cons_of_mem _ hi), length_cons]
      omega
  have hfacts : Json.widthItems ([longFact 1 69, longFact 2 70].map
      (dynamicTaskFactShape plainHost).write) = 351 := by
    simp only [map_cons, map_nil, Json.widthItems,
      width_longFact numberWidth_digit.2.1, width_longFact numberWidth_digit.2.2]
  have hlongIds := htasks longIds fun _ h => h
  have hlength : longIds.length = 14 := rfl
  have hwidth := width_plan plainHost (longPlan n)
  have hrevision : Json.numberWidth (longPlan n).revision = 1 := numberWidth_digit.2.1
  have hcreatedAt : Json.numberWidth (longPlan n).createdAt = 1 := numberWidth_digit.1
  have hupdatedAt : Json.numberWidth (longPlan n).updatedAt = 1 := numberWidth_digit.1
  have hsequence : Json.numberWidth (longPlan n).factSequence = 1 := numberWidth_digit.2.2
  have hplanTasks : (longPlan n).tasks = longIds.map longTask := rfl
  have hplanFacts : (longPlan n).facts = [longFact 1 69, longFact 2 70] := rfl
  rw [hplanId, hgoal, hrevision, hcreatedAt, hupdatedAt, hsequence, hplanTasks, hplanFacts,
    hlongIds, hfacts, hlength] at hwidth
  unfold WithinBudget
  rw [Json.utf16LengthChars_text, hwidth]
  simp only [limits]
  omega

theorem nodup_fillers : [filler 69, filler 70].Nodup := by
  have hne : filler 69 ≠ filler 70 := fun h => absurd (filler_injective h) (by decide)
  simp [hne]

theorem bounded_filler {n maxLength : Nat} (hpos : 1 ≤ n) (hle : n ≤ maxLength) :
    Bounded plainHost maxLength (filler n) := by
  have hlength : plainHost.textLength (filler n) = n := length_filler n
  rw [Bounded, hlength]
  exact ⟨hpos, hle⟩

theorem planFields_longPlan {n : Nat} (hpos : 1 ≤ n) (hn : n ≤ 300) :
    PlanFields plainHost (longPlan n) := by
  have hids : ∀ id ∈ longIds, (1 ≤ plainHost.textLength id ∧ plainHost.textLength id ≤ 64) ∧
      isIdentifier id = true := by decide
  have hshort : (1 ≤ plainHost.textLength "p" ∧ 1 ≤ plainHost.textLength "r" ∧
      1 ≤ plainHost.textLength "s") ∧ plainHost.textLength "p" ≤ 100 ∧
      plainHost.textLength "r" ≤ 500 ∧ plainHost.textLength "s" ≤ 500 := by decide
  obtain ⟨⟨hp, hr, hs⟩, hp', hr', hs'⟩ := hshort
  have hevidence : ∀ text ∈ [filler 69, filler 70], Bounded plainHost 240 text := by
    intro text htext
    simp only [mem_cons, not_mem_nil, or_false] at htext
    rcases htext with rfl | rfl
    · exact bounded_filler (by decide) (by simp)
    · exact bounded_filler (by decide) (by simp)
  have hempty : ∀ {P : String → Prop} {n : Nat}, Texts P n [] :=
    fun {P n} => ⟨Nat.zero_le n, nodup_nil, by simp⟩
  have htask : ∀ id ∈ longIds, TaskFields plainHost (longTask id) := fun id hid =>
    { id := hids id hid
      title := bounded_filler (by decide) (by simp [limits])
      dependsOn := hempty
      matchHints := hempty
      activity := by
        intro activity hactivity
        rw [← Option.some.inj hactivity]
        exact bounded_filler (by decide) (by simp [limits])
      evidence := ⟨Nat.le_of_ble_eq_true rfl, nodup_fillers, hevidence⟩
      blockedBy := hempty
      createdAt := le_refl _
      updatedAt := le_refl _
      completedAt := by rintro _ ⟨⟩ }
  have hfact : ∀ sequence n, 1 ≤ sequence → 1 ≤ n → n ≤ 240 →
      FactFields plainHost (longFact sequence n) := fun sequence n hsequence hpos hle =>
    { sequence := hsequence
      id := bounded_filler hpos hle
      ref := ⟨hr, hr'⟩
      summary := ⟨hs, hs'⟩
      path := by rintro _ ⟨⟩
      createdAt := le_refl _ }
  exact {
    planId := ⟨hp, hp'⟩
    revision := le_refl 1
    goal := bounded_filler hpos (hn.trans (by simp [limits]))
    createdAt := le_refl _
    updatedAt := le_refl _
    nonempty := Nat.le_of_ble_eq_true rfl
    tasksLength := Nat.le_of_ble_eq_true rfl
    tasks := by
      intro task hmem
      obtain ⟨id, hid, rfl⟩ := List.mem_map.1 hmem
      exact htask id hid
    factsLength := Nat.le_of_ble_eq_true rfl
    facts := by
      intro fact hmem
      rcases List.mem_cons.1 hmem with rfl | hmem
      · exact hfact 1 69 (by decide) (by decide) (by decide)
      · rw [List.mem_singleton.1 hmem]
        exact hfact 2 70 (by decide) (by decide) (by decide) }

theorem planRules_longPlan (n : Nat) : PlanRules (longPlan n) := by
  have hpairs : (longPlan n).tasks.map (fun task => (task.id, task.dependsOn)) =
      longIds.map fun id => (id, []) := by
    rw [longPlan, map_map]
    rfl
  have hrising : [1, 2].Pairwise (· < ·) := by decide
  have hbounded : ∀ fact ∈ [longFact 1 69, longFact 2 70], fact.sequence ≤ 2 := by decide
  refine ⟨?_, ⟨nodup_fillers, hrising, hbounded⟩, ?_⟩
  · rw [hpairs]
    refine isDag_of_independent ?_ ?_
    · rw [map_map]
      decide
    · intro task htask
      obtain ⟨id, -, rfl⟩ := List.mem_map.1 htask
      rfl
  · intro task htask
    obtain ⟨taskId, -, rfl⟩ := List.mem_map.1 htask
    exact {
      blocked := by rintro ⟨⟩
      evidence := fun id hid => hid
      completed := by simp [longTask] }

theorem validate_longPlan {n : Nat} (hpos : 1 ≤ n) (hn : n ≤ 300) :
    validateDynamicTaskPlan plainHost ((longPlan n).toJson plainHost) = .ok (longPlan n) :=
  validateDynamicTaskPlan_toJson_iff.2
    ⟨⟨planFields_longPlan hpos hn, planRules_longPlan n⟩, withinBudget_longPlan hn⟩

/-- Two of the fourteen tasks are counted and the projection keeps to its bound. -/
theorem projection_bounded_iff_omitted :
    ∃ text, (getPromptProjection true
        { createRuntime plainHost [] with snapshot := some (longPlan 200) }).1 = some text ∧
      Js.utf16Length text ≤ maxProjection ∧ AccountsForTasks (longPlan 200) text := by
  obtain ⟨text, htext, hiff⟩ := projection_bounded_iff (validate_longPlan (by decide) (by decide))
    (s := { createRuntime plainHost [] with snapshot := some (longPlan 200) }) rfl true
  exact ⟨text, htext, hiff.2 leavesRoom_longPlan⟩

/-- **A plan with long texts gets a longer projection.** -/
theorem projection_too_long : ¬ ∀ (host : Host) (value : Json) (plan : DynamicTaskPlanV1)
    (s : DynamicTaskRuntime), validateDynamicTaskPlan host value = .ok plan →
    s.snapshot = some plan →
    ∃ text, (getPromptProjection false s).1 = some text ∧
      Js.utf16Length text ≤ maxProjection ∧ AccountsForTasks plan text := by
  intro h
  obtain ⟨text, htext, hle, -⟩ := h plainHost _ (longPlan 260)
    { createRuntime plainHost [] with snapshot := some (longPlan 260) }
    (validate_longPlan (by decide) (by decide)) rfl
  obtain ⟨projected, hprojects, htext'⟩ := @getPromptProjection_spec (longPlan 260)
    { createRuntime plainHost [] with snapshot := some (longPlan 260) } rfl false
  rw [htext'] at htext
  cases htext
  rw [reminder_bounded_iff _ (shownLines_ne_nil projected),
    hprojects.leavesRoom_iff (by decide)] at hle
  exact not_leavesRoom_longPlan hle

end BeauPi.Tasks
