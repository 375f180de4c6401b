import Stevedore.Proofs.Alike
import Stevedore.Proofs.Gating
import Stevedore.Proofs.Parallelism

/-!
Decisions do not depend on how steps that run together take turns.

Steps of one batch, or of one group of the cleanup, are there for different things. So whatever
each of them posts, its successes, failures and reports, the events that tell of one thing are those
of one step, and stand in the order in which it posts them. All interleavings are alike then, and
so are the decisions after them (`Machine.HeedsNoOrder`).

Only a temporary path can be told by two steps. Which spelling is told first is a matter of chance,
and it is the one that a user is told (`Market.order_shows_in_commands`).
-/

namespace Stevedore

variable {m : Machine} {steps : List Step}

/-- Whether no decision depends on the order in which events of steps that run together come in, as
long as each step keeps to its own order. -/
structure Machine.HeedsNoOrder (m : Machine) : Prop where
  /-- After a batch the decisions are the same, up to the spelling of temporary paths, -/
  batch : ∀ log steps (posted : Step → List Event) l r, m.next log = .dispatch steps →
    (∀ step ∈ steps, ∀ e ∈ posted step, step.Posts e) →
    Interleaves (steps.map posted) l → Interleaves (steps.map posted) r →
    m.DecidesAlike (log ++ l) (log ++ r)
  /-- and in this too, if no new path is told first in two spellings by two of the steps. -/
  batch_spelt : ∀ log steps (posted : Step → List Event) l r, m.next log = .dispatch steps →
    (∀ step ∈ steps, ∀ e ∈ posted step, step.Posts e) →
    (∀ step ∈ steps, ∀ other ∈ steps, AgreeOnPaths log (posted step) (posted other)) →
    Interleaves (steps.map posted) l → Interleaves (steps.map posted) r →
    m.DecidesEqually (log ++ l) (log ++ r)
  /-- After a group of the cleanup they are the same in any case. -/
  group : ∀ result steps ahead t (posted : Step → List Event) l r,
    Passage.Reachable m (.closing result (steps :: ahead) t) →
    (∀ step ∈ steps, ∀ e ∈ posted step, step.Posts e) →
    Interleaves (steps.map posted) l → Interleaves (steps.map posted) r →
    m.DecidesEqually (t.log ++ l) (t.log ++ r)

/-- Steps that take something down tell of no paths. -/
theorem agreeOnPaths_of_isTeardown {posted : Step → List Event} {log : List Event}
    {step other : Step} (hstep : step.isTeardown = true)
    (hown : ∀ e ∈ posted step, step.Posts e) : AgreeOnPaths log (posted step) (posted other) := by
  have hnone : ∀ e ∈ posted step, e.file? = none ∧ e.directory? = none := by
    intro e he
    rcases hown e he with rfl | h | h | rfl
    · exact ⟨rfl, rfl⟩
    · rw [h.isTeardown] at hstep
      simp at hstep
    · have hmakes := h.makes hstep
      cases e <;> simp [Event.file?, Event.directory?, Event.makes] at hmakes ⊢
    · exact ⟨rfl, rfl⟩
  have hfiles : (posted step).filterMap Event.file? = [] :=
    List.filterMap_eq_nil_iff.2 fun e he => (hnone e he).1
  have hdirectories : (posted step).filterMap Event.directory? = [] :=
    List.filterMap_eq_nil_iff.2 fun e he => (hnone e he).2
  constructor
  · intro p q hp
    rw [hfiles] at hp
    simpa using hp.mem
  · intro p q hp
    rw [hdirectories] at hp
    simpa using hp.mem

/-- No two steps of a group of the cleanup are there for the same thing, and all of them take
something down. -/
theorem Passage.Reachable.group (hg : m.graph.WellFormed) {result : TaskResult}
    {ahead : List (List Step)} {t : Moment}
    (h : Passage.Reachable m (.closing result (steps :: ahead) t)) :
    (steps.map Step.milestone).Nodup ∧ ∀ step ∈ steps, step.isTeardown = true := by
  cases h.known with
  | @closing s _ _ plan posted ended _ since =>
    have hsub : steps.Sublist (ended.map Prod.fst ++
        (t.underWay ++ (t.waiting ++ (steps :: ahead).flatten))) := by
      rw [List.flatten_cons]
      exact (List.sublist_append_left steps ahead.flatten).trans <|
        (List.sublist_append_right ..).trans <|
        (List.sublist_append_right ..).trans (List.sublist_append_right ..)
    have hshared := since.tally.shared
    constructor
    · have honce := Graph.nodup_milestone_steps hg fun _ _ hc =>
        since.reachable.mem_names hg hc
      rw [← Machine.plan_eq since.decision] at honce
      exact ((hshared.map _).nodup_iff.2 honce).sublist (hsub.map _)
    · intro step hs
      exact Machine.isTeardown_of_mem_plan since.decision (hshared.mem_iff.1 (hsub.subset hs))

/-- **Decisions do not depend on how the events of steps that run together are interleaved.** -/
theorem heedsNoOrder_of_resolve {project : Project} {task : String}
    (hresolve : Graph.resolve project task = .ok m.graph) : m.HeedsNoOrder where
  batch log steps posted l r hd hown hl hr := by
    have honce := Moment.nodup_milestone_of_dispatch (Graph.wellFormed_of_resolve hresolve) hd
    exact ((Alike.refl log).append (hl.alike hr honce hown)).decidesAlike m
  batch_spelt log steps posted l r hd hown hspelt hl hr := by
    have honce := Moment.nodup_milestone_of_dispatch (Graph.wellFormed_of_resolve hresolve) hd
    exact ((Alike.refl log).append (hl.alike hr honce hown)).decidesEqually
      (hl.speltAlike hr hspelt) m
  group result steps ahead t posted l r h hown hl hr := by
    obtain ⟨honce, hteardown⟩ := h.group (Graph.wellFormed_of_resolve hresolve)
    refine ((Alike.refl t.log).append (hl.alike hr honce hown)).decidesEqually
      (hl.speltAlike hr ?_) m
    intro step hs other _
    exact agreeOnPaths_of_isTeardown (hteardown step hs) (hown step hs)

/-! Apples and pears are stalls of the market that are made at the same time. Both of them need the
same file, and one of them says so with a slash too many. -/

namespace Market

/-- Opening the market, with as many steps at once as there are. -/
def crowded : Machine := ⟨graph, { task := "open" }⟩

/-- What has been posted when the stalls can be made. -/
def prepared : List Event :=
  [.stepStarting .createNetwork, .stepStarting .initialiseCaches,
   .stepStarting (.pullImage "stall"),
   .networkCreated ⟨"network"⟩, .cachesInitialised, .imagePulled "stall" ⟨"stall"⟩]

/-- The steps that make the two stalls. -/
def stalls : List Step :=
  [.createContainer "apples" ⟨"stall"⟩ ⟨"network"⟩, .createContainer "pears" ⟨"stall"⟩ ⟨"network"⟩]

/-- What the steps tell when all of them succeed. -/
def told : Step → List Event
  | .createContainer c _ _ =>
    [.fileCreated c ⟨if c = "apples" then "/tmp/passwd" else "/tmp//passwd"⟩,
     .containerCreated c ⟨c, c⟩]
  | step => [Prompt.success step]

theorem tellsSuccess_told (step : Step) : step.TellsSuccess (told step) := by
  have hlast := Prompt.succeeds_success step
  cases step with
  | createContainer c image network =>
    refine ⟨[_], _, rfl, fun e he => ?_, hlast⟩
    rw [List.mem_singleton.1 he]
    exact .file ..
  | _ => exact ⟨[], _, rfl, by simp, hlast⟩

/-- What is posted if the apples are made before the pears, -/
def applesFirst : List Event := stalls.flatMap (Step.posting told)

/-- and if the pears are made before the apples. -/
def pearsFirst : List Event := stalls.reverse.flatMap (Step.posting told)

theorem interleaves_applesFirst : Interleaves (stalls.map (Step.posting told)) applesFirst :=
  .flatten (stalls.map (Step.posting told))

theorem interleaves_pearsFirst : Interleaves (stalls.map (Step.posting told)) pearsFirst :=
  (Interleaves.flatten (stalls.reverse.map (Step.posting told))).of_perm (stalls.reverse_perm.map _)

theorem next_nil : crowded.next [] =
    .dispatch [.createNetwork, .initialiseCaches, .pullImage "stall"] := by
  decide +kernel

theorem next_prepared : crowded.next prepared = .dispatch stalls := by decide +kernel

/-- Whoever is made first, things go on in the same way. -/
theorem same_after_both_stalls :
    crowded.DecidesAlike (prepared ++ applesFirst) (prepared ++ pearsFirst) :=
  (heedsNoOrder_of_resolve (m := crowded) resolve_project).batch prepared stalls
    (Step.posting told) _ _ next_prepared (fun step _ => (tellsSuccess_told step).posts)
    interleaves_applesFirst interleaves_pearsFirst

/-- The stalls can be made when the network, the caches and their image are there. -/
theorem reachable_prepared : ∃ t, Moment.Reachable crowded t ∧ t.IsIdle ∧ t.log = prepared := by
  have hbegin := (Moment.Reachable.start.move (.pass ⟨rfl, rfl⟩ rfl (.inl rfl))).move
    (.dispatch ⟨rfl, rfl⟩ rfl next_nil)
  have hnetwork := (hbegin.works (Moment.works_announced _)).move
    (.work (.finish (List.mem_cons_self ..) (.inl (.network ⟨"network"⟩))))
  have hcaches := hnetwork.move (.work (.finish (List.mem_cons_self ..) (.inl .caches)))
  have hpulled := hcaches.move
    (.work (.finish (List.mem_cons_self ..) (.inl (.pulled "stall" ⟨"stall"⟩))))
  exact ⟨_, hpulled, ⟨rfl, rfl⟩, rfl⟩

/-- But what the user is told to do by hand depends on who was first. -/
theorem order_shows_in_commands :
    (∃ t, Moment.Reachable crowded t ∧ t.IsIdle ∧ t.log = prepared) ∧
      crowded.next prepared = .dispatch stalls ∧
      (∀ step ∈ stalls, ∀ e ∈ step.posting told, step.Posts e) ∧
      Interleaves (stalls.map (Step.posting told)) applesFirst ∧
      Interleaves (stalls.map (Step.posting told)) pearsFirst ∧
      ∃ plan other, crowded.cleanup (prepared ++ applesFirst) (.succeeded 0) = .run plan ∧
        crowded.cleanup (prepared ++ pearsFirst) (.succeeded 0) = .run other ∧
        "rm /tmp/passwd" ∈ plan.commands ∧ "rm /tmp/passwd" ∉ other.commands :=
  ⟨reachable_prepared, next_prepared, fun step _ => (tellsSuccess_told step).posts,
    interleaves_applesFirst, interleaves_pearsFirst, _, _, rfl, rfl, by decide +kernel,
    by decide +kernel⟩

end Market

end Stevedore
