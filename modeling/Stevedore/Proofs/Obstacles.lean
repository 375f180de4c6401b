import Stevedore.Proofs.TaskCircles

/-!
What is reported of a task whose containers cannot be found.

A problem that is reported is there (`isObstacle_of_resolve`): a container that is missing is
missing, and whoever is said to refer to it does so; a container that is said to depend on itself
does so; a circle is one. Everybody who is named is needed by the task, whatever else may be wrong
elsewhere in the project.

The search carries the way it came by (`IsRoute`): each container waits for the next one, no
container waits for itself, and none but the last comes twice. The circle that is reported is the
last part of this way, from where its last container was met first (`IsRoute.isCircuit`), so what
led to the circle is left out. The main container goes with the dependencies of the task besides its
own. They were looked up before the search began, so if one of its dependencies is missing, it is
one that the container lists itself (`Owes`).
-/

namespace Stevedore

open Relation

/-- The path from a name on is what comes behind some part of the path, and begins with the name. -/
theorem Graph.exists_eq_append_pathFrom {name : String} {path : List String} (h : name ∈ path) :
    ∃ lead around, path = lead ++ name :: around ∧ pathFrom name path = name :: around := by
  induction path with
  | nil => cases h
  | cons other path ih =>
    by_cases heq : other = name
    · exact ⟨[], path, by rw [heq]; rfl, by simp [pathFrom, heq]⟩
    · obtain ⟨lead, around, rfl, hfrom⟩ := ih (List.mem_of_ne_of_mem (Ne.symm heq) h)
      refine ⟨other :: lead, around, rfl, ?_⟩
      rw [pathFrom, List.dropWhile_cons_of_pos (by simpa using heq)]
      exact hfrom

namespace Project

/-- Whether the task needs this container: it is the task's main container, or one that can be
reached from it. -/
def Needs (project : Project) (task name : String) : Prop :=
  ∃ settings run, project.task? task = some settings ∧ settings.run = some run ∧
    ReflTransGen (project.WaitsFor task) run.container name

/-- Whether the container `a` lists `b` among its own dependencies. -/
def Lists (project : Project) (a b : String) : Prop :=
  ∃ settings, project.container? a = some settings ∧ b ∈ settings.dependencies

/-- Whether this is the task, or a container that the task needs, and has the name of a container in
its settings. -/
def Mentions (project : Project) (task : String) : Referrer → String → Prop
  | .task name, container => name = task ∧ ∃ settings, project.task? task = some settings ∧
      (container ∈ settings.dependencies ∨
        ∃ run, settings.run = some run ∧ run.container = container)
  | .container name, container => project.Needs task name ∧ project.Lists name container

/-- Whether these containers make up a circle in a task: each waits for the next one, and the last
one is the first one again, the only one that comes twice. -/
structure IsCircuit (project : Project) (task : String) (path : List String) : Prop where
  three_le_length : 3 ≤ path.length
  closed : path.getLast? = path.head?
  chain : path.IsChain (project.WaitsFor task)
  once : path.dropLast.Nodup
  needed : ∀ name ∈ path, project.Needs task name

/-- Whether this problem stands in the way of finding the containers of the task. -/
def IsObstacle (project : Project) (task : String) : ResolutionProblem → Prop
  | .taskMissing name => name = task ∧ project.task? task = none
  | .nothingToRun name =>
    name = task ∧ ∃ settings, project.task? task = some settings ∧ settings.run = none
  | .mainIsDependency name container => name = task ∧ ∃ settings run,
      project.task? task = some settings ∧ settings.run = some run ∧ run.container = container ∧
      container ∈ settings.dependencies
  | .containerMissing container referrer =>
    project.container? container = none ∧ project.Mentions task referrer container
  | .selfDependency container => project.Needs task container ∧ project.Lists container container
  | .dependencyCycle name path => name = task ∧ project.IsCircuit task path
  | .prerequisiteMissing .. | .prerequisiteCycle .. => False

/-- Whether a search for the containers of a task can have come this way. The last container of the
way may be one that it went through before. -/
structure IsRoute (project : Project) (task : String) (path : List String) : Prop where
  needed : ∀ name ∈ path, project.Needs task name
  present : ∀ name ∈ path, (project.container? name).isSome
  /-- Nobody on the way waits for itself. -/
  chain : path.IsChain fun a b => project.WaitsFor task a b ∧ a ≠ b
  once : path.dropLast.Nodup

/-- Whether `a` goes with these dependencies on a search: it waits for all of them, and lists them
itself, apart from some that are known to be other containers of the project. -/
structure Owes (project : Project) (task a : String) (dependencies : NameSet) : Prop where
  waits : ∀ b ∈ dependencies, project.WaitsFor task a b
  lists : ∀ b ∈ dependencies, project.Lists a b ∨ (project.container? b).isSome ∧ a ≠ b

variable {project : Project} {task name next : String} {path : List String}
  {problem : ResolutionProblem} {dependencies : NameSet}

/-! ## The way of the search -/

theorem Needs.of_waitsFor (h : project.Needs task name) (hnext : project.WaitsFor task name next) :
    project.Needs task next := by
  obtain ⟨settings, run, hsettings, hrun, hname⟩ := h
  exact ⟨settings, run, hsettings, hrun, hname.tail hnext⟩

/-- A container of the project goes with the dependencies that it lists. -/
theorem owes_of_container? {settings : ContainerSettings}
    (h : project.container? name = some settings) :
    project.Owes task name (.ofList settings.dependencies) where
  waits _ hb := .inl ⟨settings, h, SortedSet.mem_ofList.1 hb⟩
  lists _ hb := .inl ⟨settings, h, SortedSet.mem_ofList.1 hb⟩

namespace IsRoute

/-- The search goes on from a container that it has not come to before. -/
theorem concat (h : project.IsRoute task (path ++ [name])) (hnew : name ∉ path)
    (hnext : project.WaitsFor task name next) (hne : name ≠ next)
    (hpresent : (project.container? next).isSome) :
    project.IsRoute task (path ++ [name] ++ [next]) where
  needed := List.forall_mem_append.2
    ⟨h.needed, by simpa using (h.needed name (by simp)).of_waitsFor hnext⟩
  present := List.forall_mem_append.2 ⟨h.present, by simpa using hpresent⟩
  chain := by
    rw [List.append_assoc]
    exact List.isChain_append_cons_cons.2 ⟨h.chain, ⟨hnext, hne⟩, .singleton next⟩
  once := by
    have honce := h.once
    rw [List.dropLast_concat] at honce ⊢
    rw [← List.concat_eq_append]
    exact honce.concat hnew

/-- When the search comes to a container for the second time, the way between the two is a
circle. -/
theorem isCircuit (h : project.IsRoute task (path ++ [name])) (hagain : name ∈ path) :
    project.IsCircuit task (Graph.pathFrom name path ++ [name]) := by
  obtain ⟨lead, around, rfl, hfrom⟩ := Graph.exists_eq_append_pathFrom hagain
  rw [hfrom]
  have hchain := h.chain
  have honce := h.once
  rw [List.dropLast_concat] at honce
  rw [List.append_assoc] at hchain
  refine ⟨?_, List.getLast?_concat, hchain.right_of_append.imp fun _ _ hwaits => hwaits.1, ?_, ?_⟩
  · -- Nobody waits for itself, so somebody stands between the two.
    cases around with
    | nil => exact absurd rfl (List.isChain_pair.1 hchain.right_of_append).2
    | cons other around => simp
  · rw [List.dropLast_concat]
    exact (List.nodup_append.1 honce).2.1
  · intro other ho
    exact h.needed other (by rw [List.append_assoc]; exact List.mem_append_right _ ho)

end IsRoute

end Project

namespace Graph

variable {project : Project} {task name : String} {path : List String} {depth : Nat}
  {found : NameMap NameSet} {dependencies : NameSet} {problem : ResolutionProblem}

/-! ## The search -/

theorem eq_of_find_eq_error {referrer : Referrer}
    (h : find project name referrer = .error problem) :
    project.container? name = none ∧ problem = .containerMissing name referrer := by
  unfold find at h
  split at h
  · cases h
  · next hmissing => exact ⟨hmissing, (Except.error.inj h).symm⟩

/-- Where containers are looked up one after the other, one of them is missing if this fails. -/
theorem exists_of_forM_find_eq_error {names : List String} {referrer : Referrer}
    (h : (names.forM fun name => discard <| find project name referrer) = .error problem) :
    ∃ name ∈ names, project.container? name = none ∧ problem = .containerMissing name referrer := by
  rw [List.forM_eq_forM] at h
  induction names with
  | nil => cases h
  | cons name names ih =>
    rw [List.forM_cons] at h
    rcases bind_eq_error h with hfind | ⟨_, -, hrest⟩
    · rcases bind_eq_error hfind with hfind | ⟨_, -, hdone⟩
      · exact ⟨name, List.mem_cons_self .., eq_of_find_eq_error hfind⟩
      · cases hdone
    · obtain ⟨other, ho, hmissing⟩ := ih hrest
      exact ⟨other, List.mem_cons_of_mem _ ho, hmissing⟩

/-- Why a search fails that may go deeper: for the container it has come to, or for one of its
dependencies, or in a search from one of them. -/
theorem visit_succ_eq_error
    (h : visit project task (depth + 1) path found name dependencies = .error problem) :
    (name ∈ dependencies ∧ problem = .selfDependency name) ∨
    (name ∈ path ∧ problem = .dependencyCycle task (pathFrom name path ++ [name])) ∨
    (name ∉ dependencies ∧ name ∉ path ∧ ∃ next ∈ dependencies,
      (project.container? next = none ∧ problem = .containerMissing next (.container name)) ∨
      ∃ settings mid, project.container? next = some settings ∧
        visit project task depth (path ++ [name]) mid next (.ofList settings.dependencies) =
          .error problem) := by
  unfold visit at h
  split at h
  · cases h
  split at h
  · next hself => exact .inl ⟨hself, (Except.error.inj h).symm⟩
  split at h
  · next hagain => exact .inr (.inl ⟨hagain, (Except.error.inj h).symm⟩)
  next hself hnew =>
  refine .inr (.inr ⟨hself, hnew, ?_⟩)
  rcases bind_eq_error h with hfold | ⟨mid, -, hdone⟩
  · obtain ⟨next, hnext, mid, hfails⟩ := exists_of_foldlM_eq_error _ _ hfold
    refine ⟨next, hnext, ?_⟩
    rcases bind_eq_error hfails with hfind | ⟨settings, hfind, hvisit⟩
    · exact .inl (eq_of_find_eq_error hfind)
    · exact .inr ⟨settings, mid, find_ok hfind, hvisit⟩
  · cases hdone

open Project in
/-- A search that has come on a way finds no problem that is not there. -/
theorem isObstacle_of_visit (hroute : project.IsRoute task (path ++ [name]))
    (howes : project.Owes task name dependencies)
    (hdepth : project.settings.containers.size < path.length + depth)
    (h : visit project task depth path found name dependencies = .error problem) :
    project.IsObstacle task problem := by
  induction depth generalizing path found name dependencies with
  | zero =>
    have honce := hroute.once
    rw [List.dropLast_concat] at honce
    have hle := length_le_of_nodup honce fun other ho =>
      hroute.present other (List.mem_append_left _ ho)
    omega
  | succ depth ih =>
    have hneeded := hroute.needed name (by simp)
    rcases visit_succ_eq_error h with
      ⟨hself, rfl⟩ | ⟨hagain, rfl⟩ | ⟨hself, hnew, next, hnext, hfails⟩
    · exact ⟨hneeded, (howes.lists name hself).resolve_right fun hother => hother.2 rfl⟩
    · exact ⟨rfl, hroute.isCircuit hagain⟩
    · rcases hfails with ⟨hmissing, rfl⟩ | ⟨settings, mid, hsettings, hvisit⟩
      · refine ⟨hmissing, hneeded, (howes.lists next hnext).resolve_right fun hother => ?_⟩
        rw [hmissing] at hother
        cases hother.1
      · have hne : name ≠ next := fun heq => hself (heq ▸ hnext)
        have hpresent : (project.container? next).isSome := by rw [hsettings]; rfl
        refine ih (hroute.concat hnew (howes.waits next hnext) hne hpresent)
          (owes_of_container? hsettings) ?_ hvisit
        rw [List.length_append, List.length_singleton]
        omega

/-! ## What is reported -/

variable {settings : TaskSettings} {run : RunSettings} {main : ContainerSettings}

open Project in
/-- The main container goes with the dependencies of its task, which are there, besides its own. -/
theorem owes_main (hsettings : project.task? task = some settings)
    (hrun : settings.run = some run) (hapart : run.container ∉ settings.dependencies)
    (hmain : project.container? run.container = some main)
    (hall : ∀ name ∈ settings.dependencies, (project.container? name).isSome) :
    project.Owes task run.container (.ofList (settings.dependencies ++ main.dependencies)) where
  waits b hb := by
    rcases List.mem_append.1 (SortedSet.mem_ofList.1 hb) with hb | hb
    · exact .inr ⟨settings, run, hsettings, hrun, rfl, hb⟩
    · exact .inl ⟨main, hmain, hb⟩
  lists b hb := by
    rcases List.mem_append.1 (SortedSet.mem_ofList.1 hb) with hb | hb
    · exact .inr ⟨hall b hb, fun heq => hapart (heq ▸ hb)⟩
    · exact .inl ⟨main, hmain, hb⟩

open Project in
/-- **A problem that is reported is there.** -/
theorem isObstacle_of_resolve (h : resolve project task = .error problem) :
    project.IsObstacle task problem := by
  unfold resolve at h
  split at h
  case h_2 hmissing =>
    rw [← Except.error.inj h]
    exact ⟨rfl, Option.eq_none_iff_forall_ne_some.2 hmissing⟩
  next settings hsettings =>
  split at h
  case h_2 hnothing =>
    rw [← Except.error.inj h]
    exact ⟨rfl, settings, hsettings, Option.eq_none_iff_forall_ne_some.2 hnothing⟩
  next run hrun =>
  dsimp only at h
  split at h
  · next hmain =>
    rw [← Except.error.inj h]
    exact ⟨rfl, settings, run, hsettings, hrun, rfl, hmain⟩
  next hapart =>
  rcases bind_eq_error h with hfind | ⟨main, hfind, h⟩
  · obtain ⟨hmissing, rfl⟩ := eq_of_find_eq_error hfind
    exact ⟨hmissing, rfl, settings, hsettings, .inr ⟨run, hrun, rfl⟩⟩
  rcases bind_eq_error h with hlookup | ⟨_, hlookup, h⟩
  · obtain ⟨name, hname, hmissing, rfl⟩ := exists_of_forM_find_eq_error hlookup
    exact ⟨hmissing, rfl, settings, hsettings, .inl hname⟩
  rcases bind_eq_error h with hvisit | ⟨found, -, hdone⟩
  · have hmain := find_ok hfind
    have howes := owes_main hsettings hrun hapart hmain (forM_find_eq_ok.1 hlookup)
    refine isObstacle_of_visit ?_ howes (by simp) hvisit
    exact {
      needed := by simpa using ⟨settings, run, hsettings, hrun, .refl⟩
      present := by simp [hmain]
      chain := .singleton _
      once := .nil }
  · cases hdone

end Graph

/-! ## A dairy where everybody waits -/

namespace Dairy

/-- The churn waits for the cow only because the task says so, the cow for the bucket, and the
bucket for the butter dish and the churn. -/
def project : Project where
  settings := {
    projectName := "dairy"
    containers := .ofList [
      ("bucket", { image := some "tin", dependencies := ["dish", "churn"] }),
      ("churn", { image := some "oak", dependencies := ["dish"] }),
      ("cow", { image := some "hay", dependencies := ["bucket"] }),
      ("dish", { image := some "clay" })]
    tasks := .ofList [("milk", { run := some { container := "churn" }, dependencies := ["cow"] })] }
  valid := by decide

/-- The way from the churn back to itself is reported, without the dish on which nothing hangs. -/
theorem churn_waits_for_itself :
    Graph.resolve project "milk" =
        .error (.dependencyCycle "milk" ["churn", "cow", "bucket", "churn"]) ∧
      project.IsCircuit "milk" ["churn", "cow", "bucket", "churn"] := by
  have hresolve : Graph.resolve project "milk" =
      .error (.dependencyCycle "milk" ["churn", "cow", "bucket", "churn"]) := by
    decide +kernel
  exact ⟨hresolve, (Graph.isObstacle_of_resolve hresolve).2⟩

end Dairy

end Stevedore
