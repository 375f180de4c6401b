import Mathlib.Data.List.Forall2
import Stevedore.Proofs.TaskCircles
import Stevedore.Session.Plan

/-!
How a session is planned.

There is a plan if the tasks can be put in order and each of them can be planned by itself
(`Session.plansSession`): it has nothing to run and only groups its prerequisites, or its containers
are found. A plan has a task for each of them, in their order, and what the user has asked for
besides goes to the requested task only (`Session.Plans`). If one of them cannot be planned there is
no plan at all, and the problem is that of the first one.

Tasks are planned one after the other up to the first problem, which is what `List.mapM` does with
any function that may fail. Both of its outcomes are described first.
-/

namespace Stevedore

/-! ## Doing the same to all of a list -/

namespace Session

variable {ε α β : Type} {f : α → Except ε β} {xs : List α} {ys : List β} {e : ε}

theorem mapM_eq_ok_iff :
    xs.mapM f = .ok ys ↔ List.Forall₂ (fun x y => f x = .ok y) xs ys := by
  induction xs generalizing ys with
  | nil =>
    rw [List.mapM_nil, List.forall₂_nil_left_iff]
    constructor
    · intro h
      exact (Except.ok.inj h).symm
    · rintro rfl
      rfl
  | cons x xs ih =>
    rw [List.mapM_cons, List.forall₂_cons_left_iff]
    constructor
    · intro h
      obtain ⟨y, hy, h⟩ := Graph.bind_eq_ok h
      obtain ⟨rest, hrest, h⟩ := Graph.bind_eq_ok h
      exact ⟨y, rest, hy, ih.1 hrest, (Except.ok.inj h).symm⟩
    · rintro ⟨y, rest, hy, hrest, rfl⟩
      simp only [hy, ih.2 hrest, bind, Except.bind, pure, Except.pure]

/-- Whatever comes after the first problem is not looked at. -/
theorem mapM_append_eq_error {before after : List α} {x : α}
    (hbefore : ∀ b ∈ before, ∃ y, f b = .ok y) (hx : f x = .error e) :
    (before ++ x :: after).mapM f = .error e := by
  induction before with
  | nil =>
    rw [List.nil_append, List.mapM_cons, hx]
    rfl
  | cons b before ih =>
    obtain ⟨⟨y, hy⟩, hbefore⟩ := List.forall_mem_cons.1 hbefore
    rw [List.cons_append, List.mapM_cons, hy]
    show ((before ++ x :: after).mapM f).bind _ = _
    rw [ih hbefore]
    rfl

theorem mapM_eq_error_iff : xs.mapM f = .error e ↔ ∃ before x after,
    xs = before ++ x :: after ∧ (∀ b ∈ before, ∃ y, f b = .ok y) ∧ f x = .error e := by
  constructor
  · intro h
    induction xs with
    | nil => cases h
    | cons x xs ih =>
      rw [List.mapM_cons] at h
      rcases Graph.bind_eq_error h with hx | ⟨y, hy, h⟩
      · exact ⟨[], x, xs, rfl, by simp, hx⟩
      · rcases Graph.bind_eq_error h with hrest | ⟨ys, -, h⟩
        · obtain ⟨before, problem, after, rfl, hbefore, hproblem⟩ := ih hrest
          exact ⟨x :: before, problem, after, rfl, List.forall_mem_cons.2 ⟨⟨y, hy⟩, hbefore⟩,
            hproblem⟩
        · cases h
  · intro h
    obtain ⟨before, x, after, rfl, hbefore, hx⟩ := h
    exact mapM_append_eq_error hbefore hx

theorem exists_mapM_eq_ok_iff : (∃ ys, xs.mapM f = .ok ys) ↔ ∀ x ∈ xs, ∃ y, f x = .ok y := by
  constructor
  · intro h
    obtain ⟨ys, hys⟩ := h
    have hall := mapM_eq_ok_iff.1 hys
    clear hys
    induction hall with
    | nil => simp
    | cons hx _ ih => exact List.forall_mem_cons.2 ⟨⟨_, hx⟩, ih⟩
  · intro hall
    cases h : xs.mapM f with
    | ok ys => exact ⟨ys, rfl⟩
    | error e =>
      obtain ⟨before, x, after, rfl, -, hx⟩ := mapM_eq_error_iff.1 h
      obtain ⟨y, hy⟩ := hall x (by simp)
      rw [hy] at hx
      cases hx

end Session

/-! ## One task -/

/-- Whether a task has nothing to run itself, only prerequisites. -/
def Project.OnlyGroups (project : Project) (name : String) : Prop :=
  ∃ settings, project.task? name = some settings ∧ settings.run = none ∧
    settings.prerequisites ≠ []

/-- Whether these are the options with which a session that was asked for with `options` runs the
task. -/
structure Options.Allot (options : Options) (name : String) (own : Options) : Prop where
  requested : name = options.task → own = options
  /-- What was asked for besides is not for the others, which are cleaned up once they succeed. -/
  prerequisite : name ≠ options.task → own =
    { options with task := name, additionalArguments := [], afterSuccess := .cleanup }

namespace Session

/-- Whether the task may be planned like this. -/
inductive Plans (project : Project) (options : Options) (name : String) : PlannedTask → Prop
  | groups (nothing : project.OnlyGroups name) :
      Plans project options name (.onlyPrerequisites name)
  | runs {graph : Graph} {own : Options} (something : ¬ project.OnlyGroups name)
      (found : Graph.resolve project name = .ok graph) (allotted : options.Allot name own) :
      Plans project options name (.run ⟨graph, own⟩)

variable {project : Project} {options : Options} {name : String} {task : PlannedTask}
  {problem : ResolutionProblem}

theorem onlyGroups_iff : onlyGroups project name = true ↔ project.OnlyGroups name := by
  unfold onlyGroups Project.OnlyGroups
  cases project.task? name <;> simp

theorem allot_iff {own : Options} : options.Allot name own ↔ own = optionsFor options name := by
  unfold optionsFor Options.forPrerequisite
  constructor
  · intro h
    split
    · next heq => exact h.requested heq
    · next hne => exact h.prerequisite hne
  · rintro rfl
    constructor
    · intro heq
      simp [heq]
    · intro hne
      simp [hne]

theorem planTask_eq_ok_iff :
    planTask project options name = .ok task ↔ Plans project options name task := by
  unfold planTask
  constructor
  · intro h
    split at h
    · next hgroups =>
      obtain rfl := Except.ok.inj h
      exact .groups (onlyGroups_iff.1 hgroups)
    · next hruns =>
      cases hgraph : Graph.resolve project name with
      | error problem => simp [hgraph, Except.map] at h
      | ok graph =>
        rw [hgraph] at h
        obtain rfl := Except.ok.inj h
        exact .runs (mt onlyGroups_iff.2 hruns) hgraph (allot_iff.2 rfl)
  · intro h
    cases h with
    | groups nothing => simp [onlyGroups_iff.2 nothing]
    | runs something found allotted =>
      rw [if_neg (mt onlyGroups_iff.1 something), found, allot_iff.1 allotted]
      rfl

theorem planTask_eq_error_iff : planTask project options name = .error problem ↔
    ¬ project.OnlyGroups name ∧ Graph.resolve project name = .error problem := by
  unfold planTask
  rw [← onlyGroups_iff]
  by_cases hgroups : onlyGroups project name = true
  · simp [hgroups]
  · cases Graph.resolve project name <;> simp [hgroups, Except.map]

/-- Whether a task can be planned does not depend on the options. -/
theorem exists_planTask_iff : (∃ task, planTask project options name = .ok task) ↔
    (¬ project.OnlyGroups name → ∃ graph, Graph.resolve project name = .ok graph) := by
  simp only [planTask_eq_ok_iff]
  constructor
  · intro h something
    obtain ⟨task, hplans⟩ := h
    cases hplans with
    | groups nothing => exact absurd nothing something
    | runs _ found _ => exact ⟨_, found⟩
  · intro h
    by_cases hgroups : project.OnlyGroups name
    · exact ⟨_, .groups hgroups⟩
    · obtain ⟨graph, found⟩ := h hgroups
      exact ⟨_, .runs hgroups found (allot_iff.2 rfl)⟩

/-! ## All tasks -/

theorem exists_mapM_planTask_iff (project : Project) (options : Options) {order : List String} :
    (∃ tasks, order.mapM (planTask project options) = .ok tasks) ↔
      ∀ name ∈ order, ¬ project.OnlyGroups name →
        ∃ graph, Graph.resolve project name = .ok graph := by
  simp only [exists_mapM_eq_ok_iff, exists_planTask_iff]

theorem mapM_planTask_eq_error_iff {order : List String} :
    order.mapM (planTask project options) = .error problem ↔
      ∃ before name after, order = before ++ name :: after ∧
        (∀ b ∈ before, ¬ project.OnlyGroups b → ∃ graph, Graph.resolve project b = .ok graph) ∧
        ¬ project.OnlyGroups name ∧ Graph.resolve project name = .error problem := by
  simp only [mapM_eq_error_iff, exists_planTask_iff, planTask_eq_error_iff]

/-- The task that was asked for is the last one in order, and comes only once. -/
theorem exists_concat_of_executionOrder {skip : Bool} {order : List String}
    (h : project.executionOrder name skip = .ok order) :
    ∃ before, order = before ++ [name] ∧ name ∉ before := by
  cases skip with
  | false =>
    have horder := Project.inOrder_of_executionOrder h
    obtain ⟨before, rfl⟩ := List.getLast?_eq_some_iff.1 horder.last
    have honce := horder.once
    rw [← List.concat_eq_append, List.nodup_concat] at honce
    exact ⟨before, rfl, honce.1⟩
  | true =>
    unfold Project.executionOrder at h
    split at h
    · simp at h
    · exact ⟨[], (Except.ok.inj h).symm, by simp⟩

/-- What the plan of a session is, and when there is one. -/
structure PlansSession (project : Project) (options : Options) (skip : Bool) : Prop where
  ok_iff : (∃ tasks, plan project options skip = .ok tasks) ↔
    ∃ order, project.executionOrder options.task skip = .ok order ∧
      ∀ name ∈ order, ¬ project.OnlyGroups name → ∃ graph, Graph.resolve project name = .ok graph
  /-- There is one task for each, in their order. -/
  planned : ∀ tasks, plan project options skip = .ok tasks ↔
    ∃ order, project.executionOrder options.task skip = .ok order ∧
      List.Forall₂ (Plans project options) order tasks
  /-- Only the last one has been asked for. -/
  requested : ∀ order, project.executionOrder options.task skip = .ok order →
    ∃ before, order = before ++ [options.task] ∧ options.task ∉ before
  /-- The first problem is reported instead of a plan. -/
  refused : ∀ problem, plan project options skip = .error problem ↔
    project.executionOrder options.task skip = .error problem ∨
    ∃ before name after,
      project.executionOrder options.task skip = .ok (before ++ name :: after) ∧
      (∀ b ∈ before, ¬ project.OnlyGroups b → ∃ graph, Graph.resolve project b = .ok graph) ∧
      ¬ project.OnlyGroups name ∧ Graph.resolve project name = .error problem

theorem plan_eq_ok_iff {skip : Bool} {tasks : List PlannedTask} :
    plan project options skip = .ok tasks ↔
      ∃ order, project.executionOrder options.task skip = .ok order ∧
        order.mapM (planTask project options) = .ok tasks := by
  constructor
  · intro h
    exact Graph.bind_eq_ok h
  · intro h
    obtain ⟨order, horder, htasks⟩ := h
    rw [plan, horder]
    exact htasks

theorem plan_eq_error_iff {skip : Bool} : plan project options skip = .error problem ↔
    project.executionOrder options.task skip = .error problem ∨
    ∃ order, project.executionOrder options.task skip = .ok order ∧
      order.mapM (planTask project options) = .error problem := by
  constructor
  · intro h
    exact Graph.bind_eq_error h
  · intro h
    unfold plan
    rcases h with horder | ⟨order, horder, hproblem⟩
    · rw [horder]
      rfl
    · rw [horder]
      exact hproblem

/-- **A session is planned if its tasks can be put in order and each of them can be planned**, and
then every task is planned by itself; otherwise nothing is. -/
theorem plansSession (project : Project) (options : Options) (skip : Bool) :
    PlansSession project options skip where
  ok_iff := by
    simp only [plan_eq_ok_iff, ← exists_mapM_planTask_iff project options]
    rw [exists_comm]
    simp
  planned tasks := by
    simp only [plan_eq_ok_iff, mapM_eq_ok_iff, planTask_eq_ok_iff]
  requested _ := exists_concat_of_executionOrder
  refused problem := by
    simp only [plan_eq_error_iff, mapM_planTask_eq_error_iff]
    refine or_congr_right ⟨?_, ?_⟩
    · intro h
      obtain ⟨_, horder, before, name, after, rfl, hproblem⟩ := h
      exact ⟨before, name, after, horder, hproblem⟩
    · intro h
      obtain ⟨before, name, after, horder, hproblem⟩ := h
      exact ⟨_, horder, before, name, after, rfl, hproblem⟩

end Session

end Stevedore
