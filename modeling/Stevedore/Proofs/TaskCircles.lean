import Mathlib.Data.List.Chain
import Stevedore.Proofs.Prerequisites

/-!
What is reported of tasks that cannot be put in order.

A problem that is reported is there (`isCause_of_executionOrder`): the missing task is missing, and
is required by one that the search had to come to; the circle is one. Where there is a circle, and
nothing is missing, it is a circle that is reported (`exists_prerequisiteCycle`).

The path that is reported of a circle is the whole way of the search, from the task that was asked
for to the one that it came to for the second time. So the tasks of the circle come last, and
whatever led there comes before them (`EndsInCircle`). The path is a circle of its own exactly if
the task that comes twice is the one that was asked for, as it is where every circle goes through
this task (`isCircle_of_forall_mem`).

What carries the proof is that the search is on a way (`IsWay`): each task has the next one as a
prerequisite, and none comes twice. There are no more tasks on it than in the project, so that the
limit on the depth is never what is reported.
-/

namespace Stevedore

/-- A program that fails does so in its first part, or in the rest. -/
theorem Graph.bind_eq_error {ε α β : Type} {x : Except ε α} {f : α → Except ε β} {e : ε}
    (h : x >>= f = .error e) : x = .error e ∨ ∃ a, x = .ok a ∧ f a = .error e := by
  cases x with
  | error other => exact .inl (congrArg Except.error (Except.error.inj h))
  | ok a => exact .inr ⟨a, rfl, h⟩

/-- Searches one after the other fail where one of them does. -/
theorem Graph.exists_of_foldlM_eq_error {ε α : Type} {search : α → String → Except ε α} {e : ε} :
    ∀ (names : List String) (start : α), names.foldlM search start = .error e →
      ∃ name ∈ names, ∃ mid, search mid name = .error e := by
  intro names
  induction names with
  | nil =>
    intro start h
    nomatch h
  | cons name names ih =>
    intro start h
    rw [List.foldlM_cons] at h
    rcases bind_eq_error h with h | ⟨mid, -, h⟩
    · exact ⟨name, List.mem_cons_self .., start, h⟩
    · obtain ⟨other, ho, hfails⟩ := ih mid h
      exact ⟨other, List.mem_cons_of_mem _ ho, hfails⟩

namespace Project

open Relation

/-- Whether these tasks make up a circle: each has the next one as a prerequisite, and the last one
is the first one again, the only one that comes twice. -/
structure IsCircle (project : Project) (path : List String) : Prop where
  two_le_length : 2 ≤ path.length
  closed : path.getLast? = path.head?
  chain : path.IsChain project.Requires
  once : path.dropLast.Nodup

/-- Whether this path leads from `task` to a circle and once around it. -/
structure EndsInCircle (project : Project) (task : String) (path : List String) : Prop where
  begins : path.head? = some task
  chain : path.IsChain project.Requires
  once : path.dropLast.Nodup
  circle : ∃ circle, circle <:+ path ∧ project.IsCircle circle

/-- Whether this problem stands in the way of putting `task` in order. -/
def IsCause (project : Project) (task : String) : ResolutionProblem → Prop
  | .taskMissing name => name = task ∧ project.task? task = none
  | .prerequisiteMissing name prerequisite =>
    ReflTransGen project.Requires task name ∧ project.Requires name prerequisite ∧
      project.task? prerequisite = none
  | .prerequisiteCycle path => project.EndsInCircle task path
  | _ => False

/-- Whether a search that set out from `task` can have come this way. -/
structure IsWay (project : Project) (task : String) (path : List String) : Prop where
  begins : path.head? = some task
  chain : path.IsChain project.Requires
  once : path.Nodup
  present : ∀ name ∈ path, (project.task? name).isSome
  needed : ∀ name ∈ path, ReflTransGen project.Requires task name

variable {project : Project} {task first name : String} {path order : List String}
  {problem : ResolutionProblem} {depth : Nat} {skipPrerequisites : Bool}

/-! ## Circles -/

theorem IsCircle.exists_eq (h : project.IsCircle path) :
    ∃ name around, path = name :: around ++ [name] := by
  have hlong := h.two_le_length
  have hclosed := h.closed
  rcases List.eq_nil_or_concat path with rfl | ⟨around, last, rfl⟩
  · exact absurd hlong (by simp)
  · cases around with
    | nil => exact absurd hlong (by simp)
    | cons name around =>
      rw [List.concat_eq_append] at hclosed ⊢
      rw [List.getLast?_concat] at hclosed
      obtain rfl : last = name := Option.some.inj hclosed
      exact ⟨last, around, rfl⟩

/-- Every task of a circle requires itself, in some number of steps. -/
theorem IsCircle.exists_transGen (h : project.IsCircle path) :
    ∃ name ∈ path, TransGen project.Requires name name := by
  obtain ⟨name, around, rfl⟩ := h.exists_eq
  have hlater := List.isChain_iff_pairwise.1 (h.chain.imp fun _ _ => TransGen.single)
  exact ⟨name, by simp, List.rel_of_pairwise_cons hlater (by simp)⟩

/-- A path that ends in a circle is one if it ends with the task that it begins with. -/
theorem EndsInCircle.isCircle_iff (h : project.EndsInCircle task path) :
    project.IsCircle path ↔ path.getLast? = some task := by
  constructor
  · intro hcircle
    rw [hcircle.closed, h.begins]
  · intro hlast
    obtain ⟨circle, hsuffix, hcircle⟩ := h.circle
    have hlong : 2 ≤ path.length := Nat.le_trans hcircle.two_le_length hsuffix.length_le
    exact ⟨hlong, by rw [hlast, h.begins], h.chain, h.once⟩

/-- Nothing leads to a circle through the task that the path begins with. -/
theorem EndsInCircle.isCircle_of_mem {circle : List String} (h : project.EndsInCircle task path)
    (hsuffix : circle <:+ path) (hcircle : project.IsCircle circle) (hmem : task ∈ circle) :
    project.IsCircle path := by
  obtain ⟨lead, rfl⟩ := hsuffix
  obtain ⟨name, around, rfl⟩ := hcircle.exists_eq
  have honce := h.once
  rw [← List.append_assoc, List.dropLast_concat] at honce
  cases lead with
  | nil => exact hcircle
  | cons other lead =>
    have hother : other = task := Option.some.inj h.begins
    have hin : task ∈ name :: around := by simpa [or_assoc, or_comm] using hmem
    exact absurd hother ((List.nodup_append.1 honce).2.2 other (List.mem_cons_self ..) task hin)

theorem EndsInCircle.needed (h : project.EndsInCircle task path) (hname : name ∈ path) :
    ReflTransGen project.Requires task name := by
  obtain ⟨rest, rfl⟩ := List.head?_eq_some_iff.1 h.begins
  have hlater := List.isChain_iff_pairwise.1 (h.chain.imp fun _ _ => TransGen.single)
  rcases List.mem_cons.1 hname with rfl | hname
  · rfl
  · exact (List.rel_of_pairwise_cons hlater hname).to_reflTransGen

/-! ## The way of the search -/

theorem isWay_singleton (h : (project.task? task).isSome) : project.IsWay task [task] where
  begins := rfl
  chain := .singleton task
  once := List.nodup_singleton task
  present name hname := by rwa [List.mem_singleton.1 hname]
  needed name hname := by rw [List.mem_singleton.1 hname]

namespace IsWay

theorem isChain_concat (h : project.IsWay first (path ++ [task]))
    (hname : project.Requires task name) :
    (path ++ [task] ++ [name]).IsChain project.Requires := by
  rw [List.append_assoc]
  exact List.isChain_append_cons_cons.2 ⟨h.chain, hname, .singleton name⟩

/-- The search goes on to a task that it has not come to before. -/
theorem concat (h : project.IsWay first (path ++ [task])) (hname : project.Requires task name)
    (hpresent : (project.task? name).isSome) (hnew : name ∉ path ++ [task]) :
    project.IsWay first (path ++ [task] ++ [name]) where
  begins := by rw [List.head?_append, h.begins]; rfl
  chain := h.isChain_concat hname
  once := by
    rw [← List.concat_eq_append]
    exact h.once.concat hnew
  present := List.forall_mem_append.2 ⟨h.present, by simpa using hpresent⟩
  needed := List.forall_mem_append.2 ⟨h.needed, by simpa using (h.needed task (by simp)).tail hname⟩

/-- It has gone around a circle when it comes to a task for the second time. -/
theorem endsInCircle (h : project.IsWay first (path ++ [task]))
    (hname : project.Requires task name) (hagain : name ∈ path ++ [task]) :
    project.EndsInCircle first (path ++ [task] ++ [name]) := by
  have hchain := h.isChain_concat hname
  refine ⟨by rw [List.head?_append, h.begins]; rfl, hchain, ?_, ?_⟩
  · rw [List.dropLast_concat]
    exact h.once
  · obtain ⟨lead, around, heq⟩ := List.append_of_mem hagain
    have honce := h.once
    rw [heq] at hchain honce ⊢
    rw [List.append_assoc] at hchain ⊢
    refine ⟨name :: around ++ [name], List.suffix_append .., ?_⟩
    exact {
      two_le_length := by simp
      closed := List.getLast?_concat
      chain := hchain.right_of_append
      once := by
        rw [List.dropLast_concat]
        exact (List.nodup_append.1 honce).2.1 }

end IsWay

/-! ## The search -/

/-- What is wrong with the prerequisites of a task is wrong indeed. -/
theorem IsWay.isCause (h : project.IsWay first (path ++ [task]))
    (hproblem : project.prerequisiteProblem? task (path ++ [task]) = some problem) :
    project.IsCause first problem := by
  obtain ⟨name, hname, hproblem⟩ := List.exists_of_findSome?_eq_some hproblem
  have hrequires := mem_prerequisites.1 hname
  split at hproblem
  · next hmissing =>
    rw [← Option.some.inj hproblem]
    exact ⟨h.needed task (by simp), hrequires, Option.isNone_iff_eq_none.1 hmissing⟩
  · split at hproblem
    · next hagain =>
      rw [← Option.some.inj hproblem]
      exact h.endsInCircle hrequires hagain
    · nomatch hproblem

/-- A search fails for what is wrong with the prerequisites of its task, or where the search from
one of them fails. -/
theorem schedule_succ_eq_error
    (h : project.schedule (depth + 1) path task order = .error problem) :
    project.prerequisiteProblem? task path = some problem ∨
      ∃ name mid, project.Requires task name ∧ (project.task? name).isSome ∧ name ∉ path ∧
        project.schedule depth (path ++ [name]) name mid = .error problem := by
  rw [schedule] at h
  cases hproblem : project.prerequisiteProblem? task path with
  | some other =>
    rw [hproblem] at h
    exact .inl (by simpa [bind, Except.bind, throw, throwThe, MonadExceptOf.throw] using h)
  | none =>
    rw [hproblem] at h
    have hgood := prerequisiteProblem?_eq_none_iff.1 hproblem
    rcases Graph.bind_eq_error h with hfold | ⟨mid, -, hdone⟩
    · obtain ⟨name, hname, mid, hfails⟩ := Graph.exists_of_foldlM_eq_error _ _ hfold
      have hrequires := mem_prerequisites.1 hname
      obtain ⟨hpresent, hnew⟩ := hgood name hrequires
      split at hfails
      · simp at hfails
      · exact .inr ⟨name, mid, hrequires, hpresent, hnew, hfails⟩
    · cases hdone

/-- A search that has come on a way finds no problem that is not there. -/
theorem isCause_of_schedule (hway : project.IsWay first (path ++ [task]))
    (hdepth : project.settings.tasks.size < (path ++ [task]).length + depth)
    (h : project.schedule depth (path ++ [task]) task order = .error problem) :
    project.IsCause first problem := by
  induction depth generalizing path task order with
  | zero =>
    have hle := Graph.length_le_of_nodup hway.once hway.present
    omega
  | succ depth ih =>
    rcases schedule_succ_eq_error h with hproblem | ⟨name, mid, hname, hpresent, hnew, hfails⟩
    · exact hway.isCause hproblem
    · refine ih (hway.concat hname hpresent hnew) ?_ hfails
      rw [List.length_append, List.length_singleton]
      omega

/-! ## What is reported -/

/-- **A problem that is reported is there.** -/
theorem isCause_of_executionOrder
    (h : project.executionOrder task skipPrerequisites = .error problem) :
    project.IsCause task problem := by
  unfold executionOrder at h
  split at h
  · next hmissing =>
    rw [← Except.error.inj h]
    exact ⟨rfl, Option.isNone_iff_eq_none.1 hmissing⟩
  · next hpresent =>
    split at h
    · nomatch h
    · have hway := isWay_singleton (by
        simpa [Option.isNone_iff_eq_none, Option.isSome_iff_ne_none] using hpresent)
      rw [← List.nil_append [task]] at h hway
      exact isCause_of_schedule hway (by simp; omega) h

/-- The path that is reported of a circle ends in one, and is one exactly if it ends with the task
that was asked for. -/
theorem isCircle_iff_of_executionOrder
    (h : project.executionOrder task skipPrerequisites = .error (.prerequisiteCycle path)) :
    project.EndsInCircle task path ∧
      (project.IsCircle path ↔ path.getLast? = some task) := by
  have hcause : project.EndsInCircle task path := isCause_of_executionOrder h
  exact ⟨hcause, hcause.isCircle_iff⟩

/-- Where every circle goes through the task that is asked for, the path is a circle. -/
theorem isCircle_of_forall_mem
    (hall : ∀ circle, project.IsCircle circle →
      (∀ name ∈ circle, ReflTransGen project.Requires task name) → task ∈ circle)
    (h : project.executionOrder task skipPrerequisites = .error (.prerequisiteCycle path)) :
    project.IsCircle path := by
  have hcause : project.EndsInCircle task path := isCause_of_executionOrder h
  obtain ⟨circle, hsuffix, hcircle⟩ := hcause.circle
  refine hcause.isCircle_of_mem hsuffix hcircle (hall circle hcircle ?_)
  intro name hname
  exact hcause.needed (hsuffix.subset hname)

/-- A circle that the task leads to is reported, unless something that it requires is missing. -/
theorem exists_prerequisiteCycle {circle : List String} (hpresent : (project.task? task).isSome)
    (hall : ∀ a b, ReflTransGen project.Requires task a → project.Requires a b →
      (project.task? b).isSome)
    (hcircle : project.IsCircle circle)
    (hneeded : ∀ name ∈ circle, ReflTransGen project.Requires task name) :
    ∃ path, project.executionOrder task false = .error (.prerequisiteCycle path) := by
  cases horder : project.executionOrder task false with
  | ok order =>
    obtain ⟨name, hname, hcircle⟩ := hcircle.exists_transGen
    exact absurd hcircle ((canOrder_of_executionOrder horder).no_circle name (hneeded name hname))
  | error problem =>
    have hcause := isCause_of_executionOrder horder
    cases problem with
    | prerequisiteCycle path => exact ⟨path, rfl⟩
    | taskMissing name => exact absurd hcause.2 (Option.isSome_iff_ne_none.1 hpresent)
    | prerequisiteMissing a b =>
      obtain ⟨hreach, hrequires, hmissing⟩ := hcause
      exact absurd hmissing (Option.isSome_iff_ne_none.1 (hall a b hreach hrequires))
    | nothingToRun | containerMissing | selfDependency | dependencyCycle | mainIsDependency =>
      exact absurd hcause id

end Project

/-! ## A bakery where there is no beginning -/

namespace Bakery

/-- Bread is kneaded with dough that has risen, and what rises has been kneaded. -/
def project : Project where
  settings := {
    projectName := "bakery"
    containers := .ofList [("oven", { image := some "brick" })]
    tasks := .ofList [
      ("bake", { run := some { container := "oven" }, prerequisites := ["knead"] }),
      ("knead", { prerequisites := ["rise"] }),
      ("rise", { prerequisites := ["knead"] })] }
  valid := by decide

/-- Whoever asks for kneaded dough is told of the circle. -/
theorem kneading_needs_kneading :
    project.executionOrder "knead" false = .error (.prerequisiteCycle ["knead", "rise", "knead"]) ∧
      project.IsCircle ["knead", "rise", "knead"] := by
  have horder : project.executionOrder "knead" false =
      .error (.prerequisiteCycle ["knead", "rise", "knead"]) := by
    decide +kernel
  obtain ⟨-, hcircle⟩ := Project.isCircle_iff_of_executionOrder horder
  exact ⟨horder, hcircle.2 rfl⟩

/-- Whoever asks for bread is told that baking lies on the circle too, which it does not. -/
theorem baking_is_told_of : ∃ path,
    project.executionOrder "bake" false = .error (.prerequisiteCycle path) ∧
      ¬ project.IsCircle path := by
  refine ⟨["bake", "knead", "rise", "knead"], by decide +kernel, ?_⟩
  intro hcircle
  exact absurd hcircle.closed (by decide)

end Bakery

end Stevedore
