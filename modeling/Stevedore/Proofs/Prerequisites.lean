import Stevedore.Prerequisites.Order
import Stevedore.Proofs.Resolvable

/-!
Which tasks can be put in order, and what the order is like.

`Project.Requires` says in terms of the settings which tasks a task has as prerequisites, with a
pattern standing for the tasks that fit it. A task can be put in order (`CanOrder`) if all that it
requires are there, and all that these require, and none of them requires itself in a circle.

The order is made by a search that passes over whatever is in order already. That it may do so is
due to what is kept of the tasks in order, `Sorted`: each comes after everything that it requires.
So they have everything they require among them, and there is no circle in them. The tasks on the
path of the search are not in order, but each of them requires those who come later on it
(`Trail`). A prerequisite on the path therefore closes a circle, and where there is no circle the
path is no longer than there are tasks.
-/

namespace Stevedore.Project

open Relation

/-- Whether the task `a` has `b` as a prerequisite: it lists `b`, or it lists a pattern and `b` is
a task that fits it. -/
def Requires (project : Project) (a b : String) : Prop :=
  ∃ settings entry, project.task? a = some settings ∧ entry ∈ settings.prerequisites ∧
    if Wildcard.isPattern entry then
      (project.task? b).isSome ∧ Wildcard.fits entry.toList b.toList
    else b = entry

/-- What makes it possible to put a task in order with everything that it requires. -/
structure CanOrder (project : Project) (task : String) : Prop where
  present : (project.task? task).isSome
  all_present : ∀ a b, ReflTransGen project.Requires task a → project.Requires a b →
    (project.task? b).isSome
  /-- None of the tasks requires itself in a circle, however short. -/
  no_circle : ∀ a, ReflTransGen project.Requires task a → ¬ TransGen project.Requires a a

/-- Whether these tasks can be carried out one after the other. -/
structure Sorted (project : Project) (order : List String) : Prop where
  present : ∀ name ∈ order, (project.task? name).isSome
  once : order.Nodup
  /-- A task comes after everything that it requires. -/
  after : ∀ before name later, order = before ++ name :: later →
    ∀ b, project.Requires name b → b ∈ before

/-- Whether these are the tasks that `task` requires, each in its turn, with `task` in the end. -/
structure InOrder (project : Project) (task : String) (order : List String) : Prop
    extends project.Sorted order where
  mem_iff : ∀ name, name ∈ order ↔ ReflTransGen project.Requires task name
  last : order.getLast? = some task

variable {project : Project} {task name a b : String} {path order order' before later : List String}

theorem mem_keys_tasks : name ∈ project.settings.tasks.keys ↔ (project.task? name).isSome := by
  rw [SortedMap.keys, List.mem_map, Option.isSome_iff_exists]
  constructor
  · rintro ⟨⟨_, settings⟩, hmem, rfl⟩
    exact ⟨settings, SortedMap.mem_entries_iff.1 hmem⟩
  · rintro ⟨settings, hsettings⟩
    exact ⟨(name, settings), SortedMap.mem_entries_iff.2 hsettings, rfl⟩

theorem mem_prerequisites : b ∈ project.prerequisites a ↔ project.Requires a b := by
  unfold prerequisites Requires
  cases project.task? a with
  | none => simp
  | some settings =>
    simp only [expanded, List.mem_flatMap, Option.some.injEq, exists_and_left, exists_eq_left']
    refine exists_congr fun entry => and_congr_right fun _ => ?_
    split
    · rw [List.mem_filter, mem_keys_tasks, Wildcard.admits_eq]
    · exact List.mem_singleton

/-! ## Tasks in order -/

namespace Sorted

theorem nil (project : Project) : project.Sorted [] := ⟨by simp, .nil, by simp⟩

/-- A task may follow once everything that it requires is in order. -/
theorem concat (h : project.Sorted order) (hpresent : (project.task? name).isSome)
    (hnew : name ∉ order) (hall : ∀ b, project.Requires name b → b ∈ order) :
    project.Sorted (order ++ [name]) where
  present := List.forall_mem_append.2 ⟨h.present, by simpa using hpresent⟩
  once := by
    rw [← List.concat_eq_append]
    exact h.once.concat hnew
  after before other later horder b hb := by
    rcases List.eq_nil_or_concat later with rfl | ⟨later, last, rfl⟩
    · obtain ⟨rfl, hother⟩ := List.append_inj' horder rfl
      obtain rfl : name = other := by simpa using hother
      exact hall b hb
    · rw [List.concat_eq_append, ← List.cons_append, ← List.append_assoc] at horder
      exact h.after before other later (List.append_inj' horder rfl).1 b hb

/-- Whatever a task requires, in however many steps, comes before it. -/
theorem mem_before (h : project.Sorted order) (horder : order = before ++ name :: later)
    (hb : TransGen project.Requires name b) : b ∈ before := by
  induction hb with
  | single hb => exact h.after before name later horder _ hb
  | @tail b c _ hbc ih =>
    obtain ⟨first, rest, rfl⟩ := List.append_of_mem ih
    rw [List.append_assoc, List.cons_append] at horder
    exact List.mem_append_left _ (h.after first b _ horder c hbc)

theorem mem_of_reflTransGen (h : project.Sorted order) (ha : a ∈ order)
    (hab : ReflTransGen project.Requires a b) : b ∈ order := by
  rcases reflTransGen_iff_eq_or_transGen.1 hab with rfl | hab
  · exact ha
  · obtain ⟨before, later, horder⟩ := List.append_of_mem ha
    rw [horder]
    exact List.mem_append_left _ (h.mem_before horder hab)

theorem not_transGen (h : project.Sorted order) (ha : a ∈ order) :
    ¬ TransGen project.Requires a a := by
  intro haa
  obtain ⟨before, later, horder⟩ := List.append_of_mem ha
  have honce := h.once
  rw [horder] at honce
  exact (List.nodup_append.1 honce).2.2 a (h.mem_before horder haa) a (List.mem_cons_self ..) rfl

end Sorted

/-! ## The search -/

theorem prerequisiteProblem?_eq_none_iff : project.prerequisiteProblem? task path = none ↔
    ∀ b, project.Requires task b → (project.task? b).isSome ∧ b ∉ path := by
  rw [prerequisiteProblem?, List.findSome?_eq_none_iff]
  refine forall_congr' fun b => ?_
  rw [mem_prerequisites]
  refine imp_congr_right fun _ => ?_
  cases project.task? b <;> simp

/-- What has to hold for a search to end well, and what it comes to then. -/
theorem schedule_succ_eq_ok_iff {depth : Nat} :
    project.schedule (depth + 1) path task order = .ok order' ↔
      (∀ b, project.Requires task b → (project.task? b).isSome ∧ b ∉ path) ∧
      ∃ mid, (project.prerequisites task).foldlM
          (fun order prerequisite =>
            if prerequisite ∈ order then .ok order
            else project.schedule depth (path ++ [prerequisite]) prerequisite order) order =
          .ok mid ∧ order' = mid ++ [task] := by
  rw [← prerequisiteProblem?_eq_none_iff, schedule]
  cases project.prerequisiteProblem? task path with
  | some problem => simp [bind, Except.bind, throw, throwThe, MonadExceptOf.throw]
  | none =>
    simp only [true_and]
    constructor
    · intro h
      obtain ⟨mid, hmid, horder⟩ := Graph.bind_eq_ok h
      exact ⟨mid, hmid, (Except.ok.inj horder).symm⟩
    · rintro ⟨mid, hmid, rfl⟩
      simp only [hmid, bind, Except.bind, pure, Except.pure]

/-- What a search from these tasks, with others on its path, does to the tasks in order. -/
structure Lengthens (project : Project) (path roots order order' : List String) : Prop where
  keeps : order ⊆ order'
  /-- Nobody on the path is put in order. -/
  avoids : ∀ name ∈ path, name ∈ order' → name ∈ order
  sorted : project.Sorted order → project.Sorted order'
  /-- Only what one of the tasks requires is added. -/
  reached : ∀ name ∈ order',
    name ∈ order ∨ ∃ root ∈ roots, ReflTransGen project.Requires root name

theorem Lengthens.refl (project : Project) (path roots order : List String) :
    project.Lengthens path roots order order :=
  ⟨fun _ => id, fun _ _ => id, id, fun _ => .inl⟩

theorem Lengthens.cons {roots mid : List String} (h : project.Lengthens path [name] order mid)
    (h' : project.Lengthens path roots mid order') :
    project.Lengthens path (name :: roots) order order' where
  keeps := List.Subset.trans h.keeps h'.keeps
  avoids other ho hin := h.avoids other ho (h'.avoids other ho hin)
  sorted hs := h'.sorted (h.sorted hs)
  reached other ho := by
    rcases h'.reached other ho with ho | ⟨root, hr, hreach⟩
    · refine (h.reached other ho).imp_right ?_
      rintro ⟨root, hr, hreach⟩
      rw [List.mem_singleton.1 hr] at hreach
      exact ⟨name, List.mem_cons_self .., hreach⟩
    · exact .inr ⟨root, List.mem_cons_of_mem _ hr, hreach⟩

/-- A search from what a task requires, with the task on its path, is a search from the task once
that has followed. -/
theorem Lengthens.concat {roots : List String}
    (h : project.Lengthens (path ++ [name]) roots order order')
    (hroots : ∀ b, b ∈ roots ↔ project.Requires name b) (hall : ∀ b ∈ roots, b ∈ order')
    (hpresent : (project.task? name).isSome) (hnew : name ∉ order) (hpath : name ∉ path) :
    project.Lengthens path [name] order (order' ++ [name]) where
  keeps := List.Subset.trans h.keeps (List.subset_append_left ..)
  avoids other ho hin := by
    rcases List.mem_append.1 hin with hin | hin
    · exact h.avoids other (List.mem_append_left _ ho) hin
    · exact absurd (List.mem_singleton.1 hin ▸ ho) hpath
  sorted hs := by
    have hlater : name ∉ order' := by
      intro hin
      exact hnew (h.avoids name (by simp) hin)
    exact (h.sorted hs).concat hpresent hlater fun b hb => hall b ((hroots b).2 hb)
  reached other ho := by
    rcases List.mem_append.1 ho with ho | ho
    · refine (h.reached other ho).imp_right ?_
      rintro ⟨root, hr, hreach⟩
      exact ⟨name, List.mem_singleton_self _, .head ((hroots root).1 hr) hreach⟩
    · exact .inr ⟨name, List.mem_singleton_self _, by rw [List.mem_singleton.1 ho]⟩

/-- Searches from several tasks, one after the other. -/
theorem lengthens_of_foldlM {ε : Type} {search : List String → String → Except ε (List String)} :
    ∀ (names order order' : List String),
      (∀ name ∈ names, ∀ start next, search start name = .ok next →
        project.Lengthens path [name] start next ∧ name ∈ next) →
      names.foldlM search order = .ok order' →
      project.Lengthens path names order order' ∧ ∀ name ∈ names, name ∈ order' := by
  intro names
  induction names with
  | nil =>
    intro order order' _ h
    rw [← Except.ok.inj h]
    exact ⟨.refl .., by simp⟩
  | cons name names ih =>
    intro order order' one h
    rw [List.foldlM_cons] at h
    obtain ⟨next, hnext, hrest⟩ := Graph.bind_eq_ok h
    obtain ⟨hfirst, hin⟩ := one name (List.mem_cons_self ..) order next hnext
    obtain ⟨hl, hall⟩ :=
      ih next order' (fun other ho => one other (List.mem_cons_of_mem _ ho)) hrest
    exact ⟨hfirst.cons hl, List.forall_mem_cons.2 ⟨hl.keeps hin, hall⟩⟩

/-- A search from a task that is not in order puts it in order, last. -/
theorem lengthens_of_schedule {depth : Nat}
    (h : project.schedule depth (path ++ [task]) task order = .ok order')
    (hpresent : (project.task? task).isSome) (hnew : task ∉ order) (hpath : task ∉ path) :
    project.Lengthens path [task] order order' ∧ order'.getLast? = some task := by
  induction depth generalizing path task order order' with
  | zero => simp [schedule] at h
  | succ depth ih =>
    obtain ⟨hgood, mid, hmid, rfl⟩ := schedule_succ_eq_ok_iff.1 h
    have one : ∀ name ∈ project.prerequisites task, ∀ start next : List String,
        (if name ∈ start then .ok start
          else project.schedule depth (path ++ [task] ++ [name]) name start) = .ok next →
        project.Lengthens (path ++ [task]) [name] start next ∧ name ∈ next := by
      intro name hname start next hnext
      split at hnext
      · next hin =>
        rw [← Except.ok.inj hnext]
        exact ⟨.refl .., hin⟩
      · next hout =>
        obtain ⟨hthere, hoff⟩ := hgood name (mem_prerequisites.1 hname)
        obtain ⟨hl, hlast⟩ := ih hnext hthere hout hoff
        exact ⟨hl, List.mem_of_getLast? hlast⟩
    obtain ⟨hl, hall⟩ := lengthens_of_foldlM _ _ _ one hmid
    exact ⟨hl.concat (fun _ => mem_prerequisites) hall hpresent hnew hpath, by simp⟩

/-- A search meets no error where everything is there and there are no circles. -/
theorem exists_schedule {depth : Nat} {first : String} (hcan : project.CanOrder first)
    (htrail : Graph.Trail project.Requires first (path ++ [task]))
    (hpresent : ∀ other ∈ path ++ [task], (project.task? other).isSome)
    (hdepth : project.settings.tasks.size < (path ++ [task]).length + depth) :
    ∃ order', project.schedule depth (path ++ [task]) task order = .ok order' := by
  induction depth generalizing path task order with
  | zero =>
    have hle := Graph.length_le_of_nodup (htrail.nodup hcan.no_circle) hpresent
    omega
  | succ depth ih =>
    have hneeded := htrail.needed task (by simp)
    have hgood : ∀ b, project.Requires task b →
        (project.task? b).isSome ∧ b ∉ path ++ [task] := by
      intro b hb
      have hnodup := (htrail.concat hb).nodup hcan.no_circle
      rw [← List.concat_eq_append, List.nodup_concat] at hnodup
      exact ⟨hcan.all_present task b hneeded hb, hnodup.1⟩
    have hnext : ∀ next ∈ project.prerequisites task, ∀ start, ∃ order',
        (if next ∈ start then .ok start
          else project.schedule depth (path ++ [task] ++ [next]) next start) =
        (.ok order' : Except ResolutionProblem _) := by
      intro next hnext start
      have hrequires := mem_prerequisites.1 hnext
      split
      · exact ⟨start, rfl⟩
      · refine ih (htrail.concat hrequires) ?_ ?_
        · exact List.forall_mem_append.2 ⟨hpresent, by simpa using (hgood next hrequires).1⟩
        · rw [List.length_append, List.length_singleton]
          omega
    obtain ⟨mid, hmid⟩ := Graph.exists_foldlM _ order hnext
    exact ⟨_, schedule_succ_eq_ok_iff.2 ⟨hgood, mid, hmid, rfl⟩⟩

/-! ## The order -/

theorem executionOrder_eq_ok_iff : project.executionOrder task false = .ok order ↔
    (project.task? task).isSome ∧
      project.schedule (project.settings.tasks.size + 1) [task] task [] = .ok order := by
  unfold executionOrder
  cases project.task? task <;> simp

/-- Tasks that are put in order are all that the last one requires, each in its turn. -/
theorem inOrder_of_executionOrder (h : project.executionOrder task false = .ok order) :
    project.InOrder task order := by
  obtain ⟨hpresent, hschedule⟩ := executionOrder_eq_ok_iff.1 h
  rw [← List.nil_append [task]] at hschedule
  obtain ⟨hl, hlast⟩ :=
    lengthens_of_schedule hschedule hpresent List.not_mem_nil List.not_mem_nil
  have hsorted := hl.sorted (.nil project)
  refine { hsorted with mem_iff := fun name => ⟨fun hname => ?_, ?_⟩, last := hlast }
  · obtain ⟨root, hroot, hreach⟩ := (hl.reached name hname).resolve_left List.not_mem_nil
    rwa [List.mem_singleton.1 hroot] at hreach
  · exact hsorted.mem_of_reflTransGen (List.mem_of_getLast? hlast)

theorem canOrder_of_executionOrder (h : project.executionOrder task false = .ok order) :
    project.CanOrder task := by
  have horder := inOrder_of_executionOrder h
  refine ⟨(executionOrder_eq_ok_iff.1 h).1, ?_, ?_⟩
  · intro a b ha hab
    exact horder.present b ((horder.mem_iff b).2 (ha.tail hab))
  · intro a ha
    exact horder.toSorted.not_transGen ((horder.mem_iff a).2 ha)

theorem CanOrder.exists_executionOrder (h : project.CanOrder task) :
    ∃ order, project.executionOrder task false = .ok order := by
  have hpresent : ∀ other ∈ [] ++ [task], (project.task? other).isSome := by
    simpa using h.present
  have hdepth : project.settings.tasks.size <
      ([] ++ [task]).length + (project.settings.tasks.size + 1) := by
    simp
    omega
  obtain ⟨order, horder⟩ : ∃ order, project.schedule _ ([] ++ [task]) task [] = .ok order :=
    exists_schedule h (Graph.trail_singleton project.Requires task) hpresent hdepth
  exact ⟨order, executionOrder_eq_ok_iff.2 ⟨h.present, horder⟩⟩

/-- **A task is put in order exactly if its settings allow for it**, and then everything that it
requires is carried out once, each task after whatever it requires itself. -/
theorem executionOrder_spec (project : Project) (task : String) :
    ((∃ order, project.executionOrder task false = .ok order) ↔ project.CanOrder task) ∧
      ∀ order, project.executionOrder task false = .ok order → project.InOrder task order :=
  ⟨⟨fun ⟨_, h⟩ => canOrder_of_executionOrder h, CanOrder.exists_executionOrder⟩,
    fun _ => inOrder_of_executionOrder⟩

/-- A task that fits a pattern is carried out once, also where another one lists it by name. -/
example : (⟨{
    projectName := "shop"
    containers := .ofList [("till", { image := some "wood" })]
    tasks := .ofList [
      ("close", { prerequisites := ["count.*", "sweep"] }),
      ("count.cash", {}),
      ("count.stock", { prerequisites := ["sweep"] }),
      ("sweep", {})] }, ⟨"."⟩, by decide⟩ : Project).executionOrder "close" false =
    .ok ["count.cash", "sweep", "count.stock", "close"] := by decide +kernel

end Stevedore.Project
