import BeauPi.Tasks.Dependencies
import BeauPi.Js.JsonWidth
import BeauPi.Js.ShapeAccepts
import Mathlib.Data.List.Pairwise

/-!
# Which plans are accepted

`validateDynamicTaskPlan` asks for fields within their limits, for the rules that the schema cannot
say, and for a text of at most 64000 characters.

* `FactFields`, `TaskFields`, `PlanFields` — what the three schemas ask for.
* `PlanRules` — the other rules.
* `validateDynamicTaskPlan_sound` — a plan that is read has the fields and keeps the rules.
* `validateDynamicTaskPlan_toJson_iff` — **a written plan is accepted if and only if it has the
  fields, keeps the rules and is short enough.**
-/

namespace BeauPi.Tasks

open Machine List
open Json (numberWidth quotedWidth quotedWidth_literal width widthFields widthItems)
open Shape.Fields (of_read_required accepts_none of_read_optional of_read_none)

/-! ## What the schemas ask for -/

/-- A text of at least one and at most so many characters, as the schema library counts them. -/
def Bounded (host : Host) (maxLength : Nat) (s : String) : Prop :=
  1 ≤ host.textLength s ∧ host.textLength s ≤ maxLength

/-- The id of a task. -/
def IsTaskId (host : Host) (s : String) : Prop :=
  Bounded host limits.maxIdLength s ∧ Js.isIdentifier s = true

/-- What `DYNAMIC_TASK_FACT_SCHEMA` asks for. -/
structure FactFields (host : Host) (fact : DynamicTaskFactV1) : Prop where
  sequence : 1 ≤ fact.sequence
  id : Bounded host limits.maxFactIdLength fact.id
  ref : Bounded host limits.maxFactRefLength fact.ref
  summary : Bounded host limits.maxFactSummaryLength fact.summary
  path : ∀ path ∈ fact.path, Bounded host limits.maxPathLength path
  createdAt : 0 ≤ fact.createdAt

/-- An array of different texts. -/
structure Texts (accepts : String → Prop) (maxItems : Nat) (texts : List String) : Prop where
  length : texts.length ≤ maxItems
  nodup : texts.Nodup
  items : ∀ text ∈ texts, accepts text

/-- What `DYNAMIC_TASK_ITEM_SCHEMA` asks for. -/
structure TaskFields (host : Host) (task : DynamicTaskItemV1) : Prop where
  id : IsTaskId host task.id
  title : Bounded host limits.maxTitleLength task.title
  dependsOn : Texts (IsTaskId host) limits.maxDependsOn task.dependsOn
  matchHints : Texts (Bounded host limits.maxMatchHintLength) limits.maxMatchHints task.matchHints
  activity : ∀ activity ∈ task.activity, Bounded host limits.maxActivityLength activity
  evidence : Texts (Bounded host limits.maxFactIdLength) limits.maxEvidence task.evidence
  blockedBy : Texts (Bounded host limits.maxBlockerLength) limits.maxBlockers task.blockedBy
  createdAt : 0 ≤ task.createdAt
  updatedAt : 0 ≤ task.updatedAt
  completedAt : ∀ completedAt ∈ task.completedAt, 0 ≤ completedAt

/-- What `DYNAMIC_TASK_PLAN_SCHEMA` asks for. -/
structure PlanFields (host : Host) (plan : DynamicTaskPlanV1) : Prop where
  planId : Bounded host 100 plan.planId
  revision : 1 ≤ plan.revision
  goal : Bounded host limits.maxGoalLength plan.goal
  createdAt : 0 ≤ plan.createdAt
  updatedAt : 0 ≤ plan.updatedAt
  nonempty : 1 ≤ plan.tasks.length
  tasksLength : plan.tasks.length ≤ limits.maxTasks
  tasks : ∀ task ∈ plan.tasks, TaskFields host task
  factsLength : plan.facts.length ≤ limits.maxFacts
  facts : ∀ fact ∈ plan.facts, FactFields host fact

/-! ## The other rules -/

/-- The facts have different ids and rising numbers. -/
structure FactsOrdered (factSequence : Nat) (facts : List DynamicTaskFactV1) : Prop where
  ids : (facts.map (·.id)).Nodup
  rising : (facts.map (·.sequence)).Pairwise (· < ·)
  bounded : ∀ fact ∈ facts, fact.sequence ≤ factSequence

/-- The rules for one task. -/
structure TaskRules (factIds : List String) (task : DynamicTaskItemV1) : Prop where
  blocked : task.status = .blocked → task.blockedBy ≠ []
  evidence : ∀ id ∈ task.evidence, id ∈ factIds
  completed : task.status = .completed ↔ task.completedAt ≠ none

/-- The rules beyond the schema. -/
structure PlanRules (plan : DynamicTaskPlanV1) : Prop where
  dependencies : IsDag (plan.tasks.map fun task => (task.id, task.dependsOn))
  facts : FactsOrdered plan.factSequence plan.facts
  tasks : ∀ task ∈ plan.tasks, TaskRules (plan.facts.map (·.id)) task

/-- Everything but the length of the text. -/
structure Acceptable (host : Host) (plan : DynamicTaskPlanV1) : Prop where
  fields : PlanFields host plan
  rules : PlanRules plan

/-- `assertPlanBudget`: the text of the plan is short enough. -/
def WithinBudget (host : Host) (plan : DynamicTaskPlanV1) : Prop :=
  Js.utf16LengthChars (plan.toJson host).text ≤ limits.maxPlanCharacters

/-! ## The written plan -/

/-- A fact as the session stores it. -/
theorem write_fact (host : Host) (fact : DynamicTaskFactV1) :
    (dynamicTaskFactShape host).write fact = .obj (Shape.compact [("version", some (.num 1)),
      ("sequence", some (.nat fact.sequence)), ("id", some (.str fact.id)),
      ("kind", some (.str fact.kind.name)), ("ref", some (.str fact.ref)),
      ("status", some (.str fact.status.name)), ("summary", some (.str fact.summary)),
      ("path", fact.path.map .str), ("createdAt", some (.num fact.createdAt))]) := rfl

/-- A task as the session stores it. -/
theorem write_task (host : Host) (task : DynamicTaskItemV1) :
    (dynamicTaskItemShape host).write task = .obj (Shape.compact [("id", some (.str task.id)),
      ("title", some (.str task.title)), ("status", some (.str task.status.name)),
      ("dependsOn", some (.arr (task.dependsOn.map .str))),
      ("matchHints", some (.arr (task.matchHints.map .str))), ("activity", task.activity.map .str),
      ("evidence", some (.arr (task.evidence.map .str))),
      ("blockedBy", some (.arr (task.blockedBy.map .str))),
      ("createdAt", some (.num task.createdAt)), ("updatedAt", some (.num task.updatedAt)),
      ("completedAt", task.completedAt.map .num)]) := rfl

/-- A plan as the session stores it. -/
theorem toJson_eq (host : Host) (plan : DynamicTaskPlanV1) :
    plan.toJson host = .obj [("version", .num 1), ("planId", .str plan.planId),
      ("revision", .nat plan.revision), ("goal", .str plan.goal),
      ("createdAt", .num plan.createdAt), ("updatedAt", .num plan.updatedAt),
      ("factSequence", .nat plan.factSequence),
      ("tasks", .arr (plan.tasks.map (dynamicTaskItemShape host).write)),
      ("facts", .arr (plan.facts.map (dynamicTaskFactShape host).write))] := rfl

section Width


/-- The characters an optional field of a record takes, whose key takes `key` with its colon and
comma. -/
def optionalWidth {α : Type} (key : Nat) (measure : α → Nat) (field : Option α) : Nat :=
  (field.map fun a => key + measure a).getD 0

theorem width_fact (host : Host) (fact : DynamicTaskFactV1) :
    width ((dynamicTaskFactShape host).write fact) = 80 + numberWidth fact.sequence +
      quotedWidth fact.id + quotedWidth fact.kind.name + quotedWidth fact.ref +
      quotedWidth fact.status.name + quotedWidth fact.summary +
      optionalWidth 8 quotedWidth fact.path + numberWidth fact.createdAt := by
  have h₁ : quotedWidth "version" = 9 := quotedWidth_literal (by decide)
  have h₂ : quotedWidth "sequence" = 10 := quotedWidth_literal (by decide)
  have h₃ : quotedWidth "id" = 4 := quotedWidth_literal (by decide)
  have h₄ : quotedWidth "kind" = 6 := quotedWidth_literal (by decide)
  have h₅ : quotedWidth "ref" = 5 := quotedWidth_literal (by decide)
  have h₆ : quotedWidth "status" = 8 := quotedWidth_literal (by decide)
  have h₇ : quotedWidth "summary" = 9 := quotedWidth_literal (by decide)
  have h₈ : quotedWidth "path" = 6 := quotedWidth_literal (by decide)
  have h₉ : quotedWidth "createdAt" = 11 := quotedWidth_literal (by decide)
  have hone : numberWidth 1 = 1 := by decide
  rw [write_fact]
  cases hpath : fact.path <;>
  · simp only [Option.map_none, Option.map_some, Shape.compact, Json.optField, cons_append,
      nil_append, widthFields, width, Json.nat, optionalWidth,
      Option.getD_none, Option.getD_some, hone, h₁, h₂, h₃, h₄, h₅, h₆, h₇, h₈, h₉]
    omega

theorem width_task (host : Host) (task : DynamicTaskItemV1) :
    width ((dynamicTaskItemShape host).write task) = 108 + quotedWidth task.id +
      quotedWidth task.title + quotedWidth task.status.name +
      max 1 (widthItems (task.dependsOn.map .str)) + max 1 (widthItems (task.matchHints.map .str)) +
      optionalWidth 12 quotedWidth task.activity + max 1 (widthItems (task.evidence.map .str)) +
      max 1 (widthItems (task.blockedBy.map .str)) + numberWidth task.createdAt +
      numberWidth task.updatedAt + optionalWidth 15 numberWidth task.completedAt := by
  have h₁ : quotedWidth "id" = 4 := quotedWidth_literal (by decide)
  have h₂ : quotedWidth "title" = 7 := quotedWidth_literal (by decide)
  have h₃ : quotedWidth "status" = 8 := quotedWidth_literal (by decide)
  have h₄ : quotedWidth "dependsOn" = 11 := quotedWidth_literal (by decide)
  have h₅ : quotedWidth "matchHints" = 12 := quotedWidth_literal (by decide)
  have h₆ : quotedWidth "activity" = 10 := quotedWidth_literal (by decide)
  have h₇ : quotedWidth "evidence" = 10 := quotedWidth_literal (by decide)
  have h₈ : quotedWidth "blockedBy" = 11 := quotedWidth_literal (by decide)
  have h₉ : quotedWidth "createdAt" = 11 := quotedWidth_literal (by decide)
  have h₁₀ : quotedWidth "updatedAt" = 11 := quotedWidth_literal (by decide)
  have h₁₁ : quotedWidth "completedAt" = 13 := quotedWidth_literal (by decide)
  rw [write_task]
  cases hactivity : task.activity <;> cases hcompletedAt : task.completedAt <;>
  · simp only [Option.map_none, Option.map_some, Shape.compact, Json.optField, cons_append,
      nil_append, widthFields, width, optionalWidth, Option.getD_none,
      Option.getD_some, h₁, h₂, h₃, h₄, h₅, h₆, h₇, h₈, h₉, h₁₀, h₁₁]
    omega

/-- **How long the text of a plan is.** -/
theorem width_plan (host : Host) (plan : DynamicTaskPlanV1) :
    width (plan.toJson host) = 105 + quotedWidth plan.planId + numberWidth plan.revision +
      quotedWidth plan.goal + numberWidth plan.createdAt + numberWidth plan.updatedAt +
      numberWidth plan.factSequence +
      max 1 (widthItems (plan.tasks.map (dynamicTaskItemShape host).write)) +
      max 1 (widthItems (plan.facts.map (dynamicTaskFactShape host).write)) := by
  have h₁ : quotedWidth "version" = 9 := quotedWidth_literal (by decide)
  have h₂ : quotedWidth "planId" = 8 := quotedWidth_literal (by decide)
  have h₃ : quotedWidth "revision" = 10 := quotedWidth_literal (by decide)
  have h₄ : quotedWidth "goal" = 6 := quotedWidth_literal (by decide)
  have h₅ : quotedWidth "createdAt" = 11 := quotedWidth_literal (by decide)
  have h₆ : quotedWidth "updatedAt" = 11 := quotedWidth_literal (by decide)
  have h₇ : quotedWidth "factSequence" = 14 := quotedWidth_literal (by decide)
  have h₈ : quotedWidth "tasks" = 7 := quotedWidth_literal (by decide)
  have h₉ : quotedWidth "facts" = 7 := quotedWidth_literal (by decide)
  have hone : numberWidth 1 = 1 := by decide
  rw [toJson_eq, Json.width_obj_cons]
  simp only [widthFields, width, Json.nat, hone, h₁, h₂, h₃, h₄, h₅, h₆, h₇, h₈, h₉]
  omega

end Width

variable {host : Host}

/-! ## The schemas accept what has the fields -/

variable {s : String}

theorem accepts_boundedText {maxLength : Nat} (h : Bounded host maxLength s) :
    (boundedText host maxLength).Accepts s :=
  Shape.accepts_text (by simp [h.1, h.2])

variable {v : Json}

theorem of_read_boundedText {maxLength : Nat} (h : (boundedText host maxLength).read? v = some s) :
    Bounded host maxLength s := by
  have hs := (Shape.of_read_text h).2
  simpa [Bounded] using hs

theorem accepts_taskId (h : IsTaskId host s) : (taskIdShape host).Accepts s :=
  Shape.accepts_text (by simp [h.1.1, h.1.2, h.2])

theorem of_read_taskId (h : (taskIdShape host).read? v = some s) :
    IsTaskId host s := by
  have hs := (Shape.of_read_text h).2
  simpa [IsTaskId, Bounded] using hs

theorem Texts.accepts {accepts : String → Bool} {P : String → Prop} {maxItems : Nat}
    {texts : List String} (h : Texts P maxItems texts)
    (hitem : ∀ text, P text → accepts text = true) :
    (Shape.array (.text accepts) 0 maxItems true).Accepts texts :=
  Shape.accepts_array (Nat.zero_le _) h.length (fun _ => h.nodup)
    fun text htext => Shape.accepts_text (hitem text (h.items text htext))

theorem Texts.of_read {accepts : String → Bool} {P : String → Prop} {maxItems : Nat}
    {texts : List String} (h : (Shape.array (.text accepts) 0 maxItems true).read? v = some texts)
    (hitem : ∀ text, accepts text = true → P text) : Texts P maxItems texts := by
  obtain ⟨-, hlength, hnodup, hitems⟩ := Shape.of_read_texts h
  exact ⟨hlength, hnodup rfl, fun text htext => hitem text (hitems text htext)⟩

theorem accepts_fact {fact : DynamicTaskFactV1} (h : FactFields host fact) :
    (dynamicTaskFactShape host).Accepts fact := by
  refine Shape.accepts_object ?_
  exact (accepts_none _ fact).constant
    |>.required (Shape.accepts_integer h.sequence)
    |>.required (accepts_boundedText h.id)
    |>.required (Shape.accepts_keyword (by cases fact.kind <;> simp))
    |>.required (accepts_boundedText h.ref)
    |>.required (Shape.accepts_keyword (by cases fact.status <;> simp))
    |>.required (accepts_boundedText h.summary)
    |>.optional (fun path hpath => accepts_boundedText (h.path path hpath))
    |>.required (Shape.accepts_number h.createdAt)

theorem of_read_fact {fact : DynamicTaskFactV1}
    (h : (dynamicTaskFactShape host).read? v = some fact) : FactFields host fact := by
  obtain ⟨fs, -, h₀⟩ := Shape.of_read_object h
  obtain ⟨f₁, v₁, createdAt, h₁, hcreatedAt, rfl⟩ := of_read_required h₀
  obtain ⟨f₂, path, h₂, hpath, rfl⟩ := of_read_optional h₁
  obtain ⟨f₃, v₃, summary, h₃, hsummary, rfl⟩ := of_read_required h₂
  obtain ⟨f₄, v₄, status, h₄, -, rfl⟩ := of_read_required h₃
  obtain ⟨f₅, v₅, ref, h₅, href, rfl⟩ := of_read_required h₄
  obtain ⟨f₆, v₆, kind, h₆, -, rfl⟩ := of_read_required h₅
  obtain ⟨f₇, v₇, id, h₇, hid, rfl⟩ := of_read_required h₆
  obtain ⟨f₈, v₈, sequence, h₈, hsequence, rfl⟩ := of_read_required h₇
  obtain rfl := of_read_none (Shape.Fields.of_read_constant h₈)
  exact {
    sequence := Shape.of_read_integer hsequence
    id := of_read_boundedText hid
    ref := of_read_boundedText href
    summary := of_read_boundedText hsummary
    path := fun p hp => (hpath p hp).elim fun _ hv => of_read_boundedText hv
    createdAt := Shape.of_read_number hcreatedAt }

variable {task : DynamicTaskItemV1}

theorem accepts_task (h : TaskFields host task) :
    (dynamicTaskItemShape host).Accepts task := by
  have hbounded : ∀ {maxLength : Nat} (text : String), Bounded host maxLength text →
      (1 ≤ host.textLength text && host.textLength text ≤ maxLength) = true := by
    intro maxLength text h
    simp [h.1, h.2]
  refine Shape.accepts_object ?_
  exact (accepts_none _ task)
    |>.required (accepts_taskId h.id)
    |>.required (accepts_boundedText h.title)
    |>.required (Shape.accepts_keyword (by cases task.status <;> simp))
    |>.required (h.dependsOn.accepts fun text h => by simp [h.1.1, h.1.2, h.2])
    |>.required (h.matchHints.accepts hbounded)
    |>.optional (fun activity hactivity => accepts_boundedText (h.activity activity hactivity))
    |>.required (h.evidence.accepts hbounded)
    |>.required (h.blockedBy.accepts hbounded)
    |>.required (Shape.accepts_number h.createdAt)
    |>.required (Shape.accepts_number h.updatedAt)
    |>.optional (fun time htime => Shape.accepts_number (h.completedAt time htime))

theorem of_read_task (h : (dynamicTaskItemShape host).read? v = some task) :
    TaskFields host task := by
  have hbounded : ∀ {maxLength : Nat} (text : String),
      (1 ≤ host.textLength text && host.textLength text ≤ maxLength) = true →
      Bounded host maxLength text := by
    intro maxLength text h
    simpa [Bounded] using h
  obtain ⟨fs, -, h₀⟩ := Shape.of_read_object h
  obtain ⟨f₁, completedAt, h₁, hcompletedAt, rfl⟩ := of_read_optional h₀
  obtain ⟨f₂, v₂, updatedAt, h₂, hupdatedAt, rfl⟩ := of_read_required h₁
  obtain ⟨f₃, v₃, createdAt, h₃, hcreatedAt, rfl⟩ := of_read_required h₂
  obtain ⟨f₄, v₄, blockedBy, h₄, hblockedBy, rfl⟩ := of_read_required h₃
  obtain ⟨f₅, v₅, evidence, h₅, hevidence, rfl⟩ := of_read_required h₄
  obtain ⟨f₆, activity, h₆, hactivity, rfl⟩ := of_read_optional h₅
  obtain ⟨f₇, v₇, matchHints, h₇, hmatchHints, rfl⟩ := of_read_required h₆
  obtain ⟨f₈, v₈, dependsOn, h₈, hdependsOn, rfl⟩ := of_read_required h₇
  obtain ⟨f₉, v₉, status, h₉, -, rfl⟩ := of_read_required h₈
  obtain ⟨f₁₀, v₁₀, title, h₁₀, htitle, rfl⟩ := of_read_required h₉
  obtain ⟨f₁₁, v₁₁, id, h₁₁, hid, rfl⟩ := of_read_required h₁₀
  obtain rfl := of_read_none h₁₁
  exact {
    id := of_read_taskId hid
    title := of_read_boundedText htitle
    dependsOn := Texts.of_read hdependsOn fun text h => by simpa [IsTaskId, Bounded] using h
    matchHints := Texts.of_read hmatchHints hbounded
    activity := fun a ha => (hactivity a ha).elim fun _ hv => of_read_boundedText hv
    evidence := Texts.of_read hevidence hbounded
    blockedBy := Texts.of_read hblockedBy hbounded
    createdAt := Shape.of_read_number hcreatedAt
    updatedAt := Shape.of_read_number hupdatedAt
    completedAt := fun t ht => (hcompletedAt t ht).elim fun _ hv => Shape.of_read_number hv }

variable {plan : DynamicTaskPlanV1}

theorem accepts_plan (h : PlanFields host plan) :
    (dynamicTaskPlanShape host).Accepts plan := by
  refine Shape.accepts_object ?_
  exact (accepts_none _ plan).constant
    |>.required (accepts_boundedText h.planId)
    |>.required (Shape.accepts_integer h.revision)
    |>.required (accepts_boundedText h.goal)
    |>.required (Shape.accepts_number h.createdAt)
    |>.required (Shape.accepts_number h.updatedAt)
    |>.required (Shape.accepts_integer (Nat.zero_le _))
    |>.required (Shape.accepts_array h.nonempty h.tasksLength (fun hu => by cases hu)
      fun task htask => accepts_task (h.tasks task htask))
    |>.required (Shape.accepts_array (Nat.zero_le _) h.factsLength (fun hu => by cases hu)
      fun fact hfact => accepts_fact (h.facts fact hfact))

theorem of_read_plan (h : (dynamicTaskPlanShape host).read? v = some plan) :
    PlanFields host plan := by
  obtain ⟨fs, -, h₀⟩ := Shape.of_read_object h
  obtain ⟨f₁, v₁, facts, h₁, hfacts, rfl⟩ := of_read_required h₀
  obtain ⟨f₂, v₂, tasks, h₂, htasks, rfl⟩ := of_read_required h₁
  obtain ⟨f₃, v₃, factSequence, h₃, -, rfl⟩ := of_read_required h₂
  obtain ⟨f₄, v₄, updatedAt, h₄, hupdatedAt, rfl⟩ := of_read_required h₃
  obtain ⟨f₅, v₅, createdAt, h₅, hcreatedAt, rfl⟩ := of_read_required h₄
  obtain ⟨f₆, v₆, goal, h₆, hgoal, rfl⟩ := of_read_required h₅
  obtain ⟨f₇, v₇, revision, h₇, hrevision, rfl⟩ := of_read_required h₆
  obtain ⟨f₈, v₈, planId, h₈, hplanId, rfl⟩ := of_read_required h₇
  obtain rfl := of_read_none (Shape.Fields.of_read_constant h₈)
  obtain ⟨tasksJson, -, hmin, hmax, -, hitems⟩ := Shape.of_read_array htasks
  obtain ⟨factsJson, -, -, hfactsMax, -, hfactItems⟩ := Shape.of_read_array hfacts
  exact {
    planId := of_read_boundedText hplanId
    revision := Shape.of_read_integer hrevision
    goal := of_read_boundedText hgoal
    createdAt := Shape.of_read_number hcreatedAt
    updatedAt := Shape.of_read_number hupdatedAt
    nonempty := hmin
    tasksLength := hmax
    tasks := Shape.forall_of_read (fun _ _ => of_read_task) hitems
    factsLength := hfactsMax
    facts := Shape.forall_of_read (fun _ _ => of_read_fact) hfactItems }

/-! ## The rules -/

theorem foldlM_collectFact_iff {factSequence : Nat} :
    ∀ {facts : List DynamicTaskFactV1} {seen : List String} {last : Nat},
      (∃ out, facts.foldlM (collectFact factSequence) (seen, last) = .ok out) ↔
        ((facts.map (·.id)).Nodup ∧ ∀ fact ∈ facts, fact.id ∉ seen) ∧
        ((facts.map (·.sequence)).Pairwise (· < ·) ∧ ∀ fact ∈ facts, last < fact.sequence) ∧
        ∀ fact ∈ facts, fact.sequence ≤ factSequence := by
  intro facts
  induction facts with
  | nil => intro seen last; simp [pure, Except.pure]
  | cons fact facts ih =>
    intro seen last
    rw [foldlM_cons]
    unfold collectFact
    by_cases hseen : fact.id ∈ seen
    · rw [if_pos hseen]
      constructor
      · rintro ⟨out, h⟩
        cases h
      · rintro ⟨⟨-, h⟩, -⟩
        exact absurd hseen (h fact (by simp))
    by_cases hsequence : fact.sequence ≤ last ∨ factSequence < fact.sequence
    · rw [if_neg hseen, if_pos hsequence]
      constructor
      · rintro ⟨out, h⟩
        cases h
      · rintro ⟨-, ⟨-, hlast⟩, hmax⟩
        have h₁ := hlast fact (by simp)
        have h₂ := hmax fact (by simp)
        omega
    · rw [if_neg hseen, if_neg hsequence]
      show (∃ out, facts.foldlM (collectFact factSequence) (fact.id :: seen, fact.sequence) =
        .ok out) ↔ _
      rw [ih]
      push Not at hsequence
      simp only [map_cons, nodup_cons, pairwise_cons, mem_cons, mem_map]
      constructor
      · rintro ⟨⟨hnodup, hnew⟩, ⟨hrising, hlast⟩, hmax⟩
        refine ⟨⟨⟨?_, hnodup⟩, ?_⟩, ⟨⟨?_, hrising⟩, ?_⟩, ?_⟩
        · rintro ⟨f, hf, hid⟩
          exact hnew f hf (by rw [hid]; simp)
        · rintro f (rfl | hf)
          · exact hseen
          · exact fun hmem => hnew f hf (.inr hmem)
        · rintro n ⟨f, hf, rfl⟩
          exact hlast f hf
        · rintro f (rfl | hf)
          · exact hsequence.1
          · exact hsequence.1.trans (hlast f hf)
        · rintro f (rfl | hf)
          · exact hsequence.2
          · exact hmax f hf
      · rintro ⟨⟨⟨hid, hnodup⟩, hnew⟩, ⟨⟨hnext, hrising⟩, -⟩, hmax⟩
        refine ⟨⟨hnodup, ?_⟩, ⟨hrising, ?_⟩, fun f hf => hmax f (.inr hf)⟩
        · intro f hf hmem
          rcases hmem with heq | hmem
          · exact hid ⟨f, hf, heq⟩
          · exact hnew f (.inr hf) hmem
        · exact fun f hf => hnext _ ⟨f, hf, rfl⟩

/-- The numbers of facts with rising numbers start above `0`, where each of them is positive. -/
theorem assertFacts_ok_iff {factSequence : Nat} {facts : List DynamicTaskFactV1}
    (hpositive : ∀ fact ∈ facts, 1 ≤ fact.sequence) :
    assertFacts factSequence facts = .ok () ↔ FactsOrdered factSequence facts := by
  have hfold := @foldlM_collectFact_iff factSequence facts [] 0
  have hassert : assertFacts factSequence facts = .ok () ↔
      ∃ out, facts.foldlM (collectFact factSequence) ([], 0) = .ok out := by
    unfold assertFacts
    rw [bind_eq_ok]
    constructor
    · rintro ⟨out, hout, -⟩
      exact ⟨out, hout⟩
    · rintro ⟨out, hout⟩
      exact ⟨out, hout, rfl⟩
  rw [hassert, hfold]
  constructor
  · rintro ⟨⟨hids, -⟩, ⟨hrising, -⟩, hbounded⟩
    exact ⟨hids, hrising, hbounded⟩
  · intro h
    exact ⟨⟨h.ids, by simp⟩, ⟨h.rising, hpositive⟩, h.bounded⟩

theorem assertBlockedReason_ok_iff {id : String} {status : DynamicTaskStatus}
    {blockedBy : List String} :
    assertBlockedReason id status blockedBy = .ok () ↔
      (status = .blocked → blockedBy ≠ []) ∧ blockedBy.Nodup := by
  unfold assertBlockedReason
  split
  next h =>
    constructor
    · intro h
      cases h
    · rintro ⟨hreason, -⟩
      exact absurd (List.length_eq_zero_iff.1 h.2) (hreason h.1)
  next h =>
    rw [assertUnique_ok_iff]
    constructor
    · intro hnodup
      exact ⟨fun hstatus hnil => h ⟨hstatus, by rw [hnil]; rfl⟩, hnodup⟩
    · exact fun h => h.2

theorem assertTaskItem_ok_iff {factIds : List String} :
    assertTaskItem factIds task = .ok () ↔
      (task.matchHints.Nodup ∧ task.evidence.Nodup ∧ ∀ id ∈ task.evidence, id ∈ factIds) ∧
        (task.status = .completed ↔ task.completedAt ≠ none) := by
  unfold assertTaskItem
  simp only [bind_eq_ok]
  constructor
  · rintro ⟨_, hhints, _, hevidence, _, hknown, htime⟩
    refine ⟨⟨assertUnique_ok_iff.1 hhints, assertUnique_ok_iff.1 hevidence, ?_⟩, ?_⟩
    · intro id hid
      have hturn := forM_eq_ok hknown id hid
      by_contra hmem
      rw [if_pos hmem] at hturn
      cases hturn
    · split at htime
      next => cases htime
      next h₁ =>
        split at htime
        next => cases htime
        next h₂ => tauto
  · rintro ⟨⟨hhints, hevidence, hknown⟩, htime⟩
    refine ⟨(), assertUnique_ok_iff.2 hhints, (), assertUnique_ok_iff.2 hevidence, (),
      forM_ok ?_, ?_⟩
    · intro id hid
      rw [if_neg (not_not.2 (hknown id hid))]
    · rw [if_neg (by tauto), if_neg (by tauto)]

/-- **A plan that was read has the fields and keeps the rules.** -/
theorem validateDynamicTaskPlan_sound {value : Json}
    (h : validateDynamicTaskPlan host value = .ok plan) : Acceptable host plan := by
  unfold validateDynamicTaskPlan at h
  obtain ⟨read, hread, h⟩ := bind_eq_ok.1 h
  obtain ⟨_, hdependencies, h⟩ := bind_eq_ok.1 h
  obtain ⟨_, hblocked, h⟩ := bind_eq_ok.1 h
  obtain ⟨_, hfacts, h⟩ := bind_eq_ok.1 h
  obtain ⟨_, hitems, h⟩ := bind_eq_ok.1 h
  obtain ⟨_, -, h⟩ := bind_eq_ok.1 h
  cases h
  have hfields := of_read_plan (assertShape_eq_ok.1 hread)
  refine ⟨hfields, validateDependencies_ok_iff.1 hdependencies,
    (assertFacts_ok_iff fun fact hfact => (hfields.facts fact hfact).sequence).1 hfacts, ?_⟩
  intro task htask
  obtain ⟨⟨-, -, hevidence⟩, hcompleted⟩ := assertTaskItem_ok_iff.1 (forM_eq_ok hitems task htask)
  exact ⟨(assertBlockedReason_ok_iff.1 (forM_eq_ok hblocked task htask)).1, hevidence, hcompleted⟩

/-- **A written plan is accepted if and only if it has the fields, keeps the rules and is short
enough.** -/
theorem validateDynamicTaskPlan_toJson_iff :
    validateDynamicTaskPlan host (plan.toJson host) = .ok plan ↔
      Acceptable host plan ∧ WithinBudget host plan := by
  constructor
  · intro h
    refine ⟨validateDynamicTaskPlan_sound h, ?_⟩
    unfold validateDynamicTaskPlan at h
    obtain ⟨_, -, h⟩ := bind_eq_ok.1 h
    obtain ⟨_, -, h⟩ := bind_eq_ok.1 h
    obtain ⟨_, -, h⟩ := bind_eq_ok.1 h
    obtain ⟨_, -, h⟩ := bind_eq_ok.1 h
    obtain ⟨_, -, h⟩ := bind_eq_ok.1 h
    obtain ⟨_, hbudget, -⟩ := bind_eq_ok.1 h
    unfold assertPlanBudget at hbudget
    split at hbudget
    next => cases hbudget
    next hle => exact Nat.le_of_not_lt hle
  · rintro ⟨⟨hfields, hrules⟩, hbudget⟩
    unfold validateDynamicTaskPlan
    refine bind_eq_ok.2 ⟨plan, assertShape_eq_ok.2 (accepts_plan hfields), ?_⟩
    refine bind_eq_ok.2 ⟨(), validateDependencies_ok_iff.2 hrules.dependencies, ?_⟩
    refine bind_eq_ok.2 ⟨(), forM_ok ?_, bind_eq_ok.2 ⟨(), ?_, bind_eq_ok.2 ⟨(), forM_ok ?_, ?_⟩⟩⟩
    · intro task htask
      exact assertBlockedReason_ok_iff.2
        ⟨(hrules.tasks task htask).blocked, (hfields.tasks task htask).blockedBy.nodup⟩
    · exact (assertFacts_ok_iff fun fact hfact => (hfields.facts fact hfact).sequence).2
        hrules.facts
    · intro task htask
      have hfields := hfields.tasks task htask
      have hrules := hrules.tasks task htask
      exact assertTaskItem_ok_iff.2 ⟨⟨hfields.matchHints.nodup, hfields.evidence.nodup,
        hrules.evidence⟩, hrules.completed⟩
    · have hassert : assertPlanBudget (plan.toJson host) = .ok () := if_neg (Nat.not_lt.2 hbudget)
      rw [hassert]
      rfl

end BeauPi.Tasks
