import Mathlib.Logic.Relation
import Stevedore.Graph.Resolve

/-!
What is known of a graph that was resolved.

`Project.WaitsFor` says in terms of the project's settings who has to wait for whom in a task. A
resolved graph is `WellFormed`: its containers go by their names, it has the main container, it
has everything its containers wait for, nobody waits for itself in a circle, and nobody is there
whom the main container does not need. Its edges are those of the project (`mem_dependencies_iff`).

The search is followed from below. `Growth` says what one visit does to the containers found so
far: it keeps them, leaves those on its own path alone, and adds only what can be reached from
where it started. That the containers found have no circle among them is kept as a rank that
falls along every edge; a container is added after everything it waits for, so its rank can be
chosen above theirs.
-/

namespace Stevedore

open Relation

/-- Whether the container `a` has to wait for `b` in a task: `a` declares it, or `a` is the task's
main container and the task declares it. -/
def Project.WaitsFor (project : Project) (task a b : String) : Prop :=
  (∃ settings, project.container? a = some settings ∧ b ∈ settings.dependencies) ∨
    ∃ settings run, project.task? task = some settings ∧ settings.run = some run ∧
      a = run.container ∧ b ∈ settings.dependencies

namespace Graph

/-- Whether `a` waits for `b` in the graph. -/
def WaitsFor (g : Graph) (a b : String) : Prop := b ∈ g.dependencies a

/-- The containers of one task, with everything they wait for and no circles. -/
structure WellFormed (g : Graph) : Prop where
  /-- Every node holds the container of its name. -/
  named : ∀ name node, g.nodes.get? name = some node → node.container.name = name
  main_mem : g.nodes.contains g.main = true
  /-- Whoever is waited for is there. -/
  closed : ∀ a b, g.WaitsFor a b → g.nodes.contains b = true
  /-- Nobody waits for itself in a circle. -/
  ranked : ∃ rank : String → Nat, ∀ a b, g.WaitsFor a b → rank b < rank a
  /-- The main container needs everybody. -/
  rooted : ∀ name, g.nodes.contains name = true → ReflTransGen g.WaitsFor g.main name

/-! ## Steps that may go wrong -/

theorem bind_eq_ok {ε α β : Type} {x : Except ε α} {f : α → Except ε β} {b : β}
    (h : x >>= f = .ok b) : ∃ a, x = .ok a ∧ f a = .ok b := by
  cases x with
  | error e => exact absurd h (by simp [bind, Except.bind])
  | ok a => exact ⟨a, rfl, h⟩

theorem find_ok {project : Project} {name : String} {referrer : Referrer}
    {settings : ContainerSettings} (h : find project name referrer = .ok settings) :
    project.container? name = some settings := by
  unfold find at h
  split at h
  · next heq =>
    rw [heq]
    exact congrArg some (Except.ok.inj h)
  · simp at h

/-! ## The containers found so far -/

/-- What `a` waits for among what was found. -/
def Edge (found : NameMap NameSet) (a b : String) : Prop :=
  ∃ dependencies, found.get? a = some dependencies ∧ b ∈ dependencies

/-- What was found is right by itself: each container has the dependencies that `declared` gives
it, all of them are found too, and there are no circles. -/
structure Sound (declared : String → Option NameSet) (found : NameMap NameSet) : Prop where
  declared : ∀ name dependencies, found.get? name = some dependencies →
    declared name = some dependencies
  closed : ∀ a b, Edge found a b → found.contains b = true
  ranked : ∃ rank : String → Nat, ∀ a b, Edge found a b → rank b < rank a

/-- What a search that starts from `roots`, on the way through `path`, makes of what was found. -/
structure Growth (declared : String → Option NameSet) (path roots : List String)
    (found found' : NameMap NameSet) : Prop where
  keeps : ∀ name dependencies, found.get? name = some dependencies →
    found'.get? name = some dependencies
  avoids : ∀ name ∈ path, found'.contains name = true → found.contains name = true
  sound : Sound declared found → Sound declared found'
  reached : ∀ name, found'.contains name = true → found.contains name = true ∨
    ∃ root ∈ roots, ReflTransGen (Edge found') root name

variable {declared : String → Option NameSet} {path roots : List String}
  {found found' : NameMap NameSet}

theorem contains_of_get? {name : String} {dependencies : NameSet}
    (h : found.get? name = some dependencies) : found.contains name = true := by
  simp [SortedMap.contains, h]

theorem Edge.mono {a b : String} (h : Edge found a b)
    (keeps : ∀ name dependencies, found.get? name = some dependencies →
      found'.get? name = some dependencies) : Edge found' a b := by
  obtain ⟨dependencies, hd, hb⟩ := h
  exact ⟨dependencies, keeps a dependencies hd, hb⟩

theorem Growth.contains (h : Growth declared path roots found found') {name : String}
    (hn : found.contains name = true) : found'.contains name = true := by
  obtain ⟨dependencies, hd⟩ := Option.isSome_iff_exists.1 hn
  exact contains_of_get? (h.keeps name dependencies hd)

theorem Growth.refl (declared : String → Option NameSet) (path roots : List String)
    (found : NameMap NameSet) : Growth declared path roots found found where
  keeps _ _ h := h
  avoids _ _ h := h
  sound h := h
  reached _ h := .inl h

/-- One search after another, the second from a single container. -/
theorem Growth.cons {root : String} {found'' : NameMap NameSet}
    (h₁ : Growth declared path [root] found found')
    (h₂ : Growth declared path roots found' found'') :
    Growth declared path (root :: roots) found found'' where
  keeps name dependencies h := h₂.keeps name dependencies (h₁.keeps name dependencies h)
  avoids name hp h := h₁.avoids name hp (h₂.avoids name hp h)
  sound h := h₂.sound (h₁.sound h)
  reached name h := by
    rcases h₂.reached name h with h | ⟨other, ho, hr⟩
    · rcases h₁.reached name h with h | ⟨other, ho, hr⟩
      · exact .inl h
      · rw [List.mem_singleton.1 ho] at hr
        refine .inr ⟨root, List.mem_cons_self .., ?_⟩
        exact hr.lift id fun _ _ he => Edge.mono he h₂.keeps
    · exact .inr ⟨other, List.mem_cons_of_mem _ ho, hr⟩

theorem exists_bound (rank : String → Nat) (names : List String) :
    ∃ bound, ∀ name ∈ names, rank name < bound := by
  induction names with
  | nil => exact ⟨0, by simp⟩
  | cons name names ih =>
    obtain ⟨bound, hb⟩ := ih
    refine ⟨max bound (rank name + 1), ?_⟩
    intro other ho
    rcases List.mem_cons.1 ho with rfl | ho
    · omega
    · have := hb other ho
      omega

/-- A container may be added once everything it waits for has been found. -/
theorem Sound.insert {name : String} {dependencies : NameSet} (h : Sound declared found)
    (hd : declared name = some dependencies) (hnew : found.contains name = false)
    (hself : name ∉ dependencies) (hall : ∀ b ∈ dependencies, found.contains b = true) :
    Sound declared (found.insert name dependencies) := by
  -- An edge of the larger map starts at the new container or was there before.
  have edge_cases : ∀ a b, Edge (found.insert name dependencies) a b →
      (a = name ∧ b ∈ dependencies) ∨ (a ≠ name ∧ Edge found a b) := by
    rintro a b ⟨ds, hget, hb⟩
    rw [SortedMap.get?_insert] at hget
    split at hget
    · next heq => exact .inl ⟨heq, Option.some.inj hget ▸ hb⟩
    · next hne => exact .inr ⟨hne, ds, hget, hb⟩
  refine ⟨?_, ?_, ?_⟩
  · intro other ds hget
    rw [SortedMap.get?_insert] at hget
    split at hget
    · next heq => rw [heq, hd, Option.some.inj hget]
    · exact h.declared other ds hget
  · intro a b he
    rw [SortedMap.contains_insert, Bool.or_eq_true]
    rcases edge_cases a b he with ⟨-, hb⟩ | ⟨-, he⟩
    · exact .inr (hall b hb)
    · exact .inr (h.closed a b he)
  · obtain ⟨rank, hrank⟩ := h.ranked
    obtain ⟨bound, hbound⟩ := exists_bound rank dependencies.toList
    refine ⟨fun other => if other = name then bound else rank other, ?_⟩
    intro a b he
    rcases edge_cases a b he with ⟨rfl, hb⟩ | ⟨hne, hold⟩
    · have hba : b ≠ a := fun heq => hself (heq ▸ hb)
      simp only [if_neg hba, if_true]
      exact hbound b hb
    · have hbn : b ≠ name := by
        rintro rfl
        rw [h.closed a b hold] at hnew
        simp at hnew
      simp only [if_neg hne, if_neg hbn]
      exact hrank a b hold

/-- Searches from several containers, one after the other. -/
theorem growth_of_foldlM {ε : Type} {search : NameMap NameSet → String → Except ε (NameMap NameSet)}
    (one : ∀ start next name, search start name = .ok next →
      Growth declared path [name] start next ∧ next.contains name = true) :
    ∀ (names : List String) (start last : NameMap NameSet), names.foldlM search start = .ok last →
      Growth declared path names start last ∧ ∀ name ∈ names, last.contains name = true := by
  intro names
  induction names with
  | nil =>
    intro start last h
    rw [← Except.ok.inj h]
    exact ⟨.refl .., by simp⟩
  | cons name names ih =>
    intro start last h
    rw [List.foldlM_cons] at h
    obtain ⟨next, hnext, hrest⟩ := bind_eq_ok h
    obtain ⟨hg, hc⟩ := one start next name hnext
    obtain ⟨hg', hc'⟩ := ih next last hrest
    refine ⟨hg.cons hg', ?_⟩
    intro other ho
    rcases List.mem_cons.1 ho with rfl | ho
    · exact hg'.contains hc
    · exact hc' other ho

/-- A search from everything that `name` waits for, on the path that ends in `name`, is a search
from `name` once that is added. -/
theorem Growth.insert {name : String} {dependencies : NameSet}
    (h : Growth declared (path ++ [name]) dependencies.toList found found')
    (hall : ∀ b ∈ dependencies, found'.contains b = true) (hd : declared name = some dependencies)
    (hnew : found.contains name = false) (hself : name ∉ dependencies) (hpath : name ∉ path) :
    Growth declared path [name] found (found'.insert name dependencies) := by
  have hfresh : found'.contains name = false := by
    rw [Bool.eq_false_iff] at hnew ⊢
    intro hm
    exact hnew (h.avoids name (by simp) hm)
  have hkeep : ∀ other ds, found'.get? other = some ds →
      (found'.insert name dependencies).get? other = some ds := by
    intro other ds ho
    rw [SortedMap.get?_insert, if_neg]
    · exact ho
    · rintro rfl
      rw [contains_of_get? ho] at hfresh
      simp at hfresh
  refine ⟨?_, ?_, ?_, ?_⟩
  · exact fun other ds ho => hkeep other ds (h.keeps other ds ho)
  · intro other hp ho
    rw [SortedMap.contains_insert, Bool.or_eq_true] at ho
    rcases ho with ho | ho
    · exact absurd (of_decide_eq_true ho ▸ hp) hpath
    · exact h.avoids other (List.mem_append_left _ hp) ho
  · intro hs
    exact (h.sound hs).insert hd hfresh hself hall
  · intro other ho
    rw [SortedMap.contains_insert, Bool.or_eq_true] at ho
    rcases ho with ho | ho
    · refine .inr ⟨name, List.mem_singleton_self _, ?_⟩
      rw [of_decide_eq_true ho]
    · rcases h.reached other ho with ho | ⟨root, hr, hreach⟩
      · exact .inl ho
      · have hfirst : Edge (found'.insert name dependencies) name root :=
          ⟨dependencies, SortedMap.get?_insert_self .., hr⟩
        refine .inr ⟨name, List.mem_singleton_self _, ReflTransGen.head hfirst ?_⟩
        exact hreach.lift id fun _ _ he => Edge.mono he hkeep

/-! ## The search -/

variable {project : Project} {task main : String} {taskDependencies : List String}

/-- What a container waits for in a task with this main container and these dependencies. -/
def declaredIn (project : Project) (main : String) (taskDependencies : List String)
    (name : String) : Option NameSet :=
  (project.container? name).map fun settings =>
    .ofList (if name = main then taskDependencies ++ settings.dependencies
      else settings.dependencies)

/-- A visit to `name`, which carries the dependencies that were declared for it. Only a container
on its own path may be visited with others, and that visit ends in an error. -/
theorem growth_of_visit :
    ∀ {depth : Nat} {path : List String} {found found' : NameMap NameSet} {name : String}
      {dependencies : NameSet},
      visit project task depth path found name dependencies = .ok found' →
      (declaredIn project main taskDependencies name = some dependencies ∨ name ∈ path) →
      (name = main ∨ main ∈ path) →
      Growth (declaredIn project main taskDependencies) path [name] found found' ∧
        found'.contains name = true := by
  intro depth
  induction depth with
  | zero =>
    intro path found found' name dependencies h
    simp [visit] at h
  | succ depth ih =>
    intro path found found' name dependencies h hdeclared hmain
    unfold visit at h
    split at h
    · next hfound =>
      rw [← Except.ok.inj h]
      exact ⟨.refl .., hfound⟩
    split at h
    · simp at h
    split at h
    · simp at h
    next hfound hself hpath =>
    obtain ⟨mid, hmid, hinsert⟩ := bind_eq_ok h
    have hmain' : main ∈ path ++ [name] := by
      rcases hmain with rfl | hmain
      · simp
      · exact List.mem_append_left _ hmain
    have one : ∀ (start next : NameMap NameSet) (dependency : String),
        (do
          let settings ← find project dependency (.container name)
          visit project task depth (path ++ [name]) start dependency
            (.ofList settings.dependencies)) = .ok next →
        Growth (declaredIn project main taskDependencies) (path ++ [name]) [dependency] start next ∧
          next.contains dependency = true := by
      intro start next dependency hnext
      obtain ⟨settings, hsettings, hvisit⟩ := bind_eq_ok hnext
      refine ih hvisit ?_ (.inr hmain')
      by_cases hdm : dependency = main
      · exact .inr (hdm ▸ hmain')
      · exact .inl (by simp [declaredIn, find_ok hsettings, hdm])
    obtain ⟨hg, hall⟩ := growth_of_foldlM one dependencies.toList found mid hmid
    rw [← Except.ok.inj hinsert]
    refine ⟨hg.insert hall (hdeclared.resolve_right hpath) ?_ hself hpath, by simp⟩
    simpa using hfound

/-! ## The graph -/

theorem find_eq_ok {name : String} {settings : ContainerSettings}
    (h : project.container? name = some settings) (referrer : Referrer) :
    find project name referrer = .ok settings := by
  rw [find, h]

/-- All containers that are referred to are looked up, and nothing else. -/
theorem forM_find_eq_ok {names : List String} {referrer : Referrer} :
    (names.forM fun name => discard <| find project name referrer) = .ok () ↔
      ∀ name ∈ names, (project.container? name).isSome := by
  rw [List.forM_eq_forM]
  induction names with
  | nil => simp [pure, Except.pure]
  | cons name names ih =>
    rw [List.forM_cons, List.forall_mem_cons, ← ih]
    cases hc : project.container? name with
    | none => simp [find, hc, discard, bind, Except.bind, Functor.mapConst, Except.map]
    | some settings =>
      simp [find_eq_ok hc, discard, bind, Except.bind, Functor.mapConst, Except.map]

/-- What a task has to have for its graph to be resolved, and what the graph is then. -/
theorem resolve_eq_ok_iff {g : Graph} : resolve project task = .ok g ↔
    ∃ settings run main found, project.task? task = some settings ∧ settings.run = some run ∧
      run.container ∉ settings.dependencies ∧ project.container? run.container = some main ∧
      (∀ name ∈ settings.dependencies, (project.container? name).isSome) ∧
      visit project task (project.settings.containers.size + 2) [] ∅ run.container
        (.ofList (settings.dependencies ++ main.dependencies)) = .ok found ∧
      g = { projectName := project.name, taskName := task, run,
            nodes := nodesOf project found } := by
  constructor
  · intro h
    unfold resolve at h
    split at h
    · next settings hs =>
      split at h
      · next run hr =>
        dsimp only at h
        split at h
        · obtain ⟨_, hthrow, _⟩ := bind_eq_ok h
          cases hthrow
        · next hapart =>
          obtain ⟨main, hmain, h⟩ := bind_eq_ok h
          obtain ⟨_, hall, h⟩ := bind_eq_ok h
          obtain ⟨found, hfound, h⟩ := bind_eq_ok h
          exact ⟨settings, run, main, found, hs, hr, hapart, find_ok hmain,
            forM_find_eq_ok.1 hall, hfound, (Except.ok.inj h).symm⟩
      · simp at h
    · simp at h
  · rintro ⟨settings, run, main, found, hs, hr, hapart, hmain, hall, hfound, rfl⟩
    unfold resolve
    simp only [hs, hr, if_neg hapart, find_eq_ok hmain, forM_find_eq_ok.2 hall, hfound, bind,
      Except.bind, pure, Except.pure]

/-- A node for each container that was found. -/
theorem get?_nodesOf {found : NameMap NameSet} {name : String} {node : Node} :
    (nodesOf project found).get? name = some node ↔
      ∃ dependencies settings, found.get? name = some dependencies ∧
        project.container? name = some settings ∧
        node = ⟨.ofSettings project.baseDirectory name settings, dependencies⟩ := by
  have hascending : (found.entries.filterMap fun e => (project.container? e.1).map fun settings =>
      (e.1, (⟨.ofSettings project.baseDirectory e.1 settings, e.2⟩ : Node))).Pairwise
      fun a b => compare a.1 b.1 = .lt := by
    refine List.Pairwise.filterMap _ ?_ found.ascending
    rintro ⟨n, ds⟩ ⟨n', ds'⟩ hlt e he e' he'
    simp only [Option.map_eq_some_iff] at he he'
    obtain ⟨s, -, rfl⟩ := he
    obtain ⟨s', -, rfl⟩ := he'
    exact hlt
  have hnodes : nodesOf project found = ⟨_, hascending⟩ := SortedMap.ofList_eq hascending
  rw [hnodes, ← SortedMap.mem_entries_iff, List.mem_filterMap]
  simp only [Option.map_eq_some_iff, Prod.mk.injEq]
  constructor
  · rintro ⟨⟨n, ds⟩, he, settings, hs, rfl, rfl⟩
    exact ⟨ds, settings, SortedMap.mem_entries_iff.1 he, hs, rfl⟩
  · rintro ⟨ds, settings, hd, hs, rfl⟩
    exact ⟨(name, ds), SortedMap.mem_entries_iff.2 hd, settings, hs, rfl, rfl⟩

variable {g : Graph}

theorem waitsFor_iff {a b : String} :
    g.WaitsFor a b ↔ ∃ node, g.nodes.get? a = some node ∧ b ∈ node.dependencies := by
  unfold WaitsFor dependencies
  split
  · next node hnode => simp [hnode]
  · next hnode =>
    rw [hnode]
    simp only [reduceCtorEq, false_and, exists_false, iff_false]
    exact SortedSet.not_mem_empty b

/-- What the search found, and what was declared of it. -/
theorem resolve_found (h : resolve project task = .ok g) :
    ∃ settings run found, project.task? task = some settings ∧ settings.run = some run ∧
      run.container = g.main ∧ g.nodes = nodesOf project found ∧ found.contains g.main = true ∧
      Growth (declaredIn project g.main settings.dependencies) [] [g.main] ∅ found ∧
      Sound (declaredIn project g.main settings.dependencies) found := by
  obtain ⟨settings, run, main, found, hs, hr, -, hm, -, hvisit, rfl⟩ := resolve_eq_ok_iff.1 h
  have hdeclared : declaredIn project run.container settings.dependencies run.container =
      some (.ofList (settings.dependencies ++ main.dependencies)) := by
    simp [declaredIn, hm]
  obtain ⟨hg, hc⟩ := growth_of_visit hvisit (.inl hdeclared) (.inl rfl)
  refine ⟨settings, run, found, hs, hr, rfl, rfl, hc, hg, hg.sound ⟨?_, ?_, ⟨fun _ => 0, ?_⟩⟩⟩
  · simp
  · rintro a b ⟨ds, hget, -⟩
    simp at hget
  · rintro a b ⟨ds, hget, -⟩
    simp at hget

/-- Every container that was found has a node, with the dependencies that were found for it. -/
theorem exists_node_iff {a : String} {dependencies : NameSet} (hn : g.nodes = nodesOf project found)
    (hs : Sound (declaredIn project main taskDependencies) found) :
    (∃ node, g.nodes.get? a = some node ∧ node.dependencies = dependencies) ↔
      found.get? a = some dependencies := by
  rw [hn]
  constructor
  · rintro ⟨node, hnode, rfl⟩
    obtain ⟨ds, settings, hd, -, rfl⟩ := get?_nodesOf.1 hnode
    exact hd
  · intro hd
    obtain ⟨settings, hsettings, -⟩ := Option.map_eq_some_iff.1 (hs.declared a dependencies hd)
    exact ⟨_, get?_nodesOf.2 ⟨dependencies, settings, hd, hsettings, rfl⟩, rfl⟩

theorem contains_nodes_iff {a : String} (hn : g.nodes = nodesOf project found)
    (hs : Sound (declaredIn project main taskDependencies) found) :
    g.nodes.contains a = true ↔ found.contains a = true := by
  simp only [SortedMap.contains, Option.isSome_iff_exists]
  constructor
  · rintro ⟨node, hnode⟩
    exact ⟨node.dependencies, (exists_node_iff hn hs).1 ⟨node, hnode, rfl⟩⟩
  · rintro ⟨ds, hd⟩
    obtain ⟨node, hnode, -⟩ := (exists_node_iff hn hs).2 hd
    exact ⟨node, hnode⟩

/-- The edges of the graph are those among the containers found. -/
theorem waitsFor_iff_edge {a b : String} (hn : g.nodes = nodesOf project found)
    (hs : Sound (declaredIn project main taskDependencies) found) :
    g.WaitsFor a b ↔ Edge found a b := by
  rw [waitsFor_iff]
  constructor
  · rintro ⟨node, hnode, hb⟩
    exact ⟨node.dependencies, (exists_node_iff hn hs).1 ⟨node, hnode, rfl⟩, hb⟩
  · rintro ⟨ds, hd, hb⟩
    obtain ⟨node, hnode, rfl⟩ := (exists_node_iff hn hs).2 hd
    exact ⟨node, hnode, hb⟩

/-- A resolved graph is well formed. -/
theorem wellFormed_of_resolve (h : resolve project task = .ok g) : g.WellFormed := by
  obtain ⟨settings, run, found, -, -, -, hn, hmain, hg, hs⟩ := resolve_found h
  refine ⟨?_, ?_, ?_, ?_, ?_⟩
  · intro name node hnode
    rw [hn] at hnode
    obtain ⟨ds, cs, -, -, rfl⟩ := get?_nodesOf.1 hnode
    rfl
  · exact (contains_nodes_iff hn hs).2 hmain
  · intro a b hab
    exact (contains_nodes_iff hn hs).2 (hs.closed a b ((waitsFor_iff_edge hn hs).1 hab))
  · obtain ⟨rank, hrank⟩ := hs.ranked
    exact ⟨rank, fun a b hab => hrank a b ((waitsFor_iff_edge hn hs).1 hab)⟩
  · intro name hname
    rcases hg.reached name ((contains_nodes_iff hn hs).1 hname) with hr | ⟨root, hroot, hr⟩
    · simp at hr
    · rw [List.mem_singleton.1 hroot] at hr
      exact hr.lift id fun a b he => (waitsFor_iff_edge hn hs).2 he

/-- The containers of a resolved graph wait for those that the project says. -/
theorem waitsFor_iff_of_resolve (h : resolve project task = .ok g) {a b : String}
    (ha : g.nodes.contains a = true) : g.WaitsFor a b ↔ project.WaitsFor task a b := by
  obtain ⟨settings, run, found, hsettings, hrun, hmain, hn, -, -, hs⟩ := resolve_found h
  obtain ⟨ds, hd⟩ := Option.isSome_iff_exists.1 ((contains_nodes_iff hn hs).1 ha)
  obtain ⟨cs, hcs, rfl⟩ := Option.map_eq_some_iff.1 (hs.declared a ds hd)
  have htask : (∃ settings run, project.task? task = some settings ∧ settings.run = some run ∧
      a = run.container ∧ b ∈ settings.dependencies) ↔ a = g.main ∧ b ∈ settings.dependencies := by
    constructor
    · rintro ⟨s, r, hs', hr', rfl, hb⟩
      obtain rfl := Option.some.inj (hsettings.symm.trans hs')
      obtain rfl := Option.some.inj (hrun.symm.trans hr')
      exact ⟨hmain, hb⟩
    · rintro ⟨rfl, hb⟩
      exact ⟨settings, run, hsettings, hrun, hmain.symm, hb⟩
  rw [waitsFor_iff_edge hn hs, Edge, Project.WaitsFor, htask]
  simp only [hd, hcs, Option.some.injEq, exists_eq_left', SortedSet.mem_ofList]
  by_cases ham : a = g.main
  · simp [ham, or_comm]
  · simp [ham]

/-- The same along chains, from any container of the graph. -/
theorem transGen_waitsFor_of_resolve (h : resolve project task = .ok g) {a b : String}
    (ha : g.nodes.contains a = true) (hab : TransGen (project.WaitsFor task) a b) :
    TransGen g.WaitsFor a b := by
  have hclosed := (wellFormed_of_resolve h).closed
  have hboth : TransGen g.WaitsFor a b ∧ g.nodes.contains b = true := by
    induction hab with
    | single hab =>
      have hg := (waitsFor_iff_of_resolve h ha).2 hab
      exact ⟨.single hg, hclosed _ _ hg⟩
    | tail _ hbc ih =>
      have hg := (waitsFor_iff_of_resolve h ih.2).2 hbc
      exact ⟨.tail ih.1 hg, hclosed _ _ hg⟩
  exact hboth.1

end Graph

end Stevedore
