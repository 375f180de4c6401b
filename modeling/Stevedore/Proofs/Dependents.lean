import Stevedore.Proofs.Planning
import Stevedore.Proofs.Resolvable
import Stevedore.Proofs.RunStage

/-!
What a resolved graph looks like, and the three ways in which it tells who waits for whom.

A graph keeps the containers that each container waits for. Whom a container is waited for by is
read off backwards (`mem_dependents`), and everybody behind those is found round by round: each
round takes in the names it has not met and goes on from them (`Graph.spread`). What carries this
search is that whoever waits for a name that was taken in has been taken in as well or stands in the
frontier (`Hemmed`), so when nothing fresh is left nobody can be missing. There are fewer rounds in
which something fresh is taken in than there are containers. So the search finds the transitive
closure (`mem_allDependents`).

`Depicts` puts together what a graph says of the settings that it was made from.
-/

namespace Stevedore.Graph

open Relation

variable {g : Graph} {a b x y : String} {frontier : List String} {seen : NameSet}

theorem mem_dependents : y ∈ g.dependents x ↔ g.WaitsFor y x := by
  rw [waitsFor_iff, dependents, SortedSet.mem_ofList]
  simp [SortedMap.keys, SortedMap.filter, SortedMap.mem_entries_iff, SortedSet.contains]

theorem mem_names_of_waitsFor (h : g.WaitsFor a b) : a ∈ g.names := by
  obtain ⟨node, hnode, -⟩ := waitsFor_iff.1 h
  rw [mem_names, SortedMap.contains, hnode]
  rfl

/-! ## The search for all dependents -/

/-- Whether nobody has been passed over: whoever waits for a name that was taken in has been taken
in too, or stands in the frontier. -/
def Hemmed (g : Graph) (frontier : List String) (seen : NameSet) : Prop :=
  ∀ a ∈ seen, ∀ b, g.WaitsFor b a → b ∈ seen ∨ b ∈ frontier

/-- The names of the frontier that have not been taken in. -/
def fresh (frontier : List String) (seen : NameSet) : List String :=
  frontier.filter fun name => name ∉ seen

/-- Everybody who waits for one of these. -/
def behind (g : Graph) (names : List String) : List String :=
  (SortedSet.ofList (names.flatMap fun name => (g.dependents name).toList)).toList

theorem mem_fresh : x ∈ fresh frontier seen ↔ x ∈ frontier ∧ x ∉ seen := by
  simp [fresh]

theorem mem_behind {names : List String} : y ∈ g.behind names ↔ ∃ x ∈ names, g.WaitsFor y x := by
  rw [behind, ← SortedSet.mem_def, SortedSet.mem_ofList, List.mem_flatMap]
  simp only [← SortedSet.mem_def, mem_dependents]

theorem mem_foldl_fresh :
    x ∈ (fresh frontier seen).foldl SortedSet.insert seen ↔ x ∈ seen ∨ x ∈ frontier := by
  rw [SortedSet.mem_foldl_insert, mem_fresh]
  tauto

/-- One round of the search. -/
theorem spread_succ (g : Graph) (rounds : Nat) (frontier : List String) (seen : NameSet) :
    g.spread (rounds + 1) frontier seen =
      if (fresh frontier seen).isEmpty then seen
      else g.spread rounds (g.behind (fresh frontier seen))
        ((fresh frontier seen).foldl SortedSet.insert seen) :=
  rfl

/-- Whoever can be reached has been taken in or is reached from the frontier. -/
theorem Hemmed.seen_or_reached (h : g.Hemmed frontier seen) (hx : x ∈ seen ∨ x ∈ frontier)
    (hxy : ReflTransGen (Function.swap g.WaitsFor) x y) :
    y ∈ seen ∨ ∃ f ∈ frontier, ReflTransGen (Function.swap g.WaitsFor) f y := by
  induction hxy with
  | refl => exact hx.imp_right fun hx => ⟨x, hx, .refl⟩
  | @tail b c _ hbc ih =>
    rcases ih with hb | ⟨f, hf, hfb⟩
    · exact (h b hb c hbc).imp_right fun hc => ⟨c, hc, .refl⟩
    · exact .inr ⟨f, hf, hfb.tail hbc⟩

/-- A round leaves nobody out. -/
theorem Hemmed.round (h : g.Hemmed frontier seen) :
    g.Hemmed (g.behind (fresh frontier seen))
      ((fresh frontier seen).foldl SortedSet.insert seen) := by
  intro a ha b hba
  rw [mem_foldl_fresh] at ha ⊢
  by_cases hold : a ∈ seen
  · exact .inl (h a hold b hba)
  · exact .inr (mem_behind.2 ⟨a, mem_fresh.2 ⟨ha.resolve_left hold, hold⟩, hba⟩)

/-- The same can be reached after a round as before it. -/
theorem Hemmed.round_iff (h : g.Hemmed frontier seen) :
    (y ∈ (fresh frontier seen).foldl SortedSet.insert seen ∨
      ∃ f ∈ g.behind (fresh frontier seen), ReflTransGen (Function.swap g.WaitsFor) f y) ↔
    y ∈ seen ∨ ∃ f ∈ frontier, ReflTransGen (Function.swap g.WaitsFor) f y := by
  constructor
  · rintro (hy | ⟨f, hf, hfy⟩)
    · exact (mem_foldl_fresh.1 hy).imp_right fun hy => ⟨y, hy, .refl⟩
    · obtain ⟨x, hx, hfx⟩ := mem_behind.1 hf
      exact .inr ⟨x, (mem_fresh.1 hx).1, .head hfx hfy⟩
  · rintro (hy | ⟨f, hf, hfy⟩)
    · exact .inl (mem_foldl_fresh.2 (.inl hy))
    · exact h.round.seen_or_reached (.inl (mem_foldl_fresh.2 (.inr hf))) hfy

/-- A round in which something fresh is taken in leaves fewer names to take in. -/
theorem length_unseen_lt (hnames : ∀ f ∈ frontier, f ∈ g.names)
    (hfresh : (fresh frontier seen).isEmpty = false) :
    (g.names.filter fun name =>
      name ∉ (fresh frontier seen).foldl SortedSet.insert seen).length <
    (g.names.filter fun name => name ∉ seen).length := by
  obtain ⟨x, hx⟩ := List.exists_mem_of_ne_nil _ (by simpa using hfresh)
  obtain ⟨hfrontier, hnew⟩ := mem_fresh.1 hx
  have hsub : (g.names.filter fun name =>
      name ∉ (fresh frontier seen).foldl SortedSet.insert seen) =
      (g.names.filter fun name => name ∉ seen).filter fun name => name ∉ frontier := by
    rw [List.filter_filter]
    refine List.filter_congr fun name _ => ?_
    simp [mem_foldl_fresh, and_comm]
  rw [hsub]
  exact List.length_filter_lt_length_iff_exists.2
    ⟨x, List.mem_filter.2 ⟨hnames x hfrontier, by simpa using hnew⟩, by simpa using hfrontier⟩

/-- A search with rounds enough takes in what can be reached from its frontier, and nothing
else. -/
theorem mem_spread {rounds : Nat} (hnames : ∀ f ∈ frontier, f ∈ g.names)
    (h : g.Hemmed frontier seen)
    (hrounds : (g.names.filter fun name => name ∉ seen).length < rounds) :
    y ∈ g.spread rounds frontier seen ↔
      y ∈ seen ∨ ∃ f ∈ frontier, ReflTransGen (Function.swap g.WaitsFor) f y := by
  induction rounds generalizing frontier seen with
  | zero => exact absurd hrounds (Nat.not_lt_zero _)
  | succ rounds ih =>
    rw [spread_succ]
    split
    · next hnone =>
      have hall : ∀ f ∈ frontier, f ∈ seen := by
        intro f hf
        by_contra hnew
        exact List.ne_nil_of_mem (mem_fresh.2 ⟨hf, hnew⟩) (List.isEmpty_iff.1 hnone)
      refine ⟨.inl, ?_⟩
      rintro (hy | ⟨f, hf, hfy⟩)
      · exact hy
      · have hclosed : g.Hemmed [] seen := by
          intro a ha b hba
          exact .inl ((h a ha b hba).elim id (hall b))
        simpa using hclosed.seen_or_reached (.inl (hall f hf)) hfy
    · next hsome =>
      have hsome : (fresh frontier seen).isEmpty = false := by simpa using hsome
      have hnext : ∀ f ∈ g.behind (fresh frontier seen), f ∈ g.names := by
        intro f hf
        obtain ⟨x, -, hfx⟩ := mem_behind.1 hf
        exact mem_names_of_waitsFor hfx
      have hfewer := length_unseen_lt hnames hsome
      rw [ih hnext h.round (by omega), h.round_iff]

theorem swap_waitsFor (g : Graph) : Function.swap g.WaitsFor = fun a b => b ∈ g.dependents a := by
  funext a b
  exact propext mem_dependents.symm

/-- **All dependents are the transitive closure of the dependents.** -/
theorem mem_allDependents :
    y ∈ g.allDependents x ↔ TransGen (fun a b => b ∈ g.dependents a) x y := by
  have hnames : ∀ f ∈ (g.dependents x).toList, f ∈ g.names := by
    intro f hf
    exact mem_names_of_waitsFor (mem_dependents.1 hf)
  have hstart : g.Hemmed (g.dependents x).toList ∅ := by
    intro a ha
    exact absurd ha (SortedSet.not_mem_empty a)
  have hrounds : (g.names.filter fun name => name ∉ (∅ : NameSet)).length <
      g.nodes.size + 1 := by
    refine Nat.lt_succ_of_le (Nat.le_trans (List.length_filter_le ..) ?_)
    exact Nat.le_of_eq (List.length_map _)
  have hempty : y ∉ (∅ : NameSet) := SortedSet.not_mem_empty y
  rw [allDependents, mem_spread hnames hstart hrounds, or_iff_right hempty, swap_waitsFor,
    TransGen.head'_iff]
  exact exists_congr fun f => Iff.rfl

theorem mem_allDependents_iff_transGen : y ∈ g.allDependents x ↔ TransGen g.WaitsFor y x := by
  rw [mem_allDependents, ← swap_waitsFor, transGen_swap]

/-! ## What a graph says of the settings -/

/-- Whether the graph shows what a task with these settings, which runs a container like this,
needs. -/
structure Depicts (g : Graph) (project : Project) (task : String) (settings : TaskSettings)
    (run : RunSettings) : Prop where
  present : project.task? task = some settings
  runs : settings.run = some run
  /-- There is a node for everybody whom the main container needs, and for nobody else. -/
  names_iff : ∀ name, name ∈ g.names ↔
    ReflTransGen (project.WaitsFor task) run.container name
  /-- Each node holds the container as the settings have it, with what was declared for it. For
  the main container what the task declares counts too. -/
  node : ∀ name ∈ g.names, ∃ declared, project.container? name = some declared ∧
    g.container? name = some (.ofSettings project.baseDirectory name declared) ∧
    g.dependencies name = .ofList
      (if name = run.container then settings.dependencies ++ declared.dependencies
        else declared.dependencies)
  /-- Dependents are dependencies read backwards, -/
  dependents_iff : ∀ x y, y ∈ g.dependents x ↔ x ∈ g.dependencies y
  /-- and all dependents are the dependents, with theirs, and so on. -/
  allDependents_iff : ∀ x y,
    y ∈ g.allDependents x ↔ TransGen (fun a b => b ∈ g.dependents a) x y
  not_mem_allDependents : ∀ x, x ∉ g.allDependents x
  isMain_iff : ∀ x, g.isMain x = true ↔ x = run.container
  /-- Nobody waits for the main container, which waits for everybody else. -/
  dependents_main : g.dependents run.container = ∅
  main_mem_allDependents : ∀ x ∈ g.names, x ≠ run.container → run.container ∈ g.allDependents x

namespace WellFormed

/-- Whoever waits for the main container would wait for itself, as the main container needs it. -/
theorem dependents_main (hg : g.WellFormed) : g.dependents g.main = ∅ := by
  refine SortedSet.ext_mem fun y => iff_of_false ?_ (SortedSet.not_mem_empty y)
  intro hy
  have hwaits := mem_dependents.1 hy
  have hneeded := hg.rooted y (mem_names.1 (mem_names_of_waitsFor hwaits))
  exact hg.not_transGen y (.head' hwaits hneeded)

theorem main_mem_allDependents (hg : g.WellFormed) (hx : x ∈ g.names) (hne : x ≠ g.main) :
    g.main ∈ g.allDependents x := by
  rw [mem_allDependents_iff_transGen]
  exact (reflTransGen_iff_eq_or_transGen.1 (hg.rooted x (mem_names.1 hx))).resolve_left hne

end WellFormed

variable {project : Project} {task name : String}

/-- The main container of a graph needs just the containers of the graph. -/
theorem needed_iff_of_resolve (h : resolve project task = .ok g) :
    name ∈ g.names ↔ ReflTransGen (project.WaitsFor task) g.main name := by
  have hg := wellFormed_of_resolve h
  rw [mem_names]
  refine ⟨fun hname => ?_, contains_of_needed h⟩
  have hneeded := hg.rooted name hname
  induction hneeded with
  | refl => exact .refl
  | @tail a b hma hab ih =>
    have ha : g.nodes.contains a = true := mem_names.1 (mem_names_of_waitsFor hab)
    exact (ih ha).tail ((waitsFor_iff_of_resolve h ha).1 hab)

/-- **A resolved graph depicts its task**: it has just the containers that the main container
needs, with just the edges that were declared, and tells from either end who waits for whom. -/
theorem depicts_of_resolve (h : resolve project task = .ok g) :
    ∃ settings run, g.Depicts project task settings run := by
  have hg := wellFormed_of_resolve h
  obtain ⟨settings, run, found, hsettings, hrun, hmain, hnodes, -, -, hsound⟩ := resolve_found h
  refine ⟨settings, run, hsettings, hrun, ?_, ?_, fun _ _ => mem_dependents,
    fun _ _ => mem_allDependents, ?_, ?_, ?_, ?_⟩
  · intro name
    rw [hmain]
    exact needed_iff_of_resolve h
  · intro name hname
    obtain ⟨node, hnode⟩ := Option.isSome_iff_exists.1 (mem_names.1 hname)
    rw [hnodes] at hnode
    obtain ⟨ds, declared, hds, hdeclared, rfl⟩ := get?_nodesOf.1 hnode
    rw [← hnodes] at hnode
    refine ⟨declared, hdeclared, ?_, ?_⟩
    · rw [container?, hnode]
      rfl
    · have hsame := hsound.declared name ds hds
      rw [declaredIn, hdeclared, Option.map_some, Option.some.injEq] at hsame
      rw [dependencies, hnode, hmain, ← hsame]
  · intro x hx
    exact hg.not_transGen x (mem_allDependents_iff_transGen.1 hx)
  · intro x
    rw [hmain, isMain, decide_eq_true_iff]
    exact eq_comm
  · rw [hmain]
    exact hg.dependents_main
  · intro x hx hne
    rw [hmain] at hne ⊢
    exact hg.main_mem_allDependents hx hne

/-- In the shop the till waits for the ladder, although it does not say so. -/
theorem till_mem_allDependents_ladder :
    "till" ∈ Shop.graph.allDependents "ladder" ∧ "till" ∉ Shop.graph.dependents "ladder" := by
  obtain ⟨settings, run, h⟩ := depicts_of_resolve Shop.resolve_project
  have hmain : "till" = run.container := (h.isMain_iff "till").1 (by decide)
  refine ⟨?_, by decide⟩
  rw [hmain]
  exact h.main_mem_allDependents "ladder" (by decide) (by rw [← hmain]; decide)

end Stevedore.Graph
