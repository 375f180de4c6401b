import Mathlib.Data.List.Pairwise
import Stevedore.Proofs.Lawful
import Stevedore.Proofs.RunStage

/-!
Nothing is done twice.

The planner leaves out the steps that were started before, but it compares whole steps. A second
creation of a container from another image, or on another network, would be another step to it. So
that nothing is started twice is a fact about runs, and not about plans: it is the law of the run
(`Lawful.once`), with everything forgotten that the engine chose.

What was started once is told once (`Reachable.told_once`), so there is one handle for each
container.
-/

namespace Stevedore.Moment

variable {m : Machine} {t : Moment}

/-- **Nothing is started twice.** In every run of a task and for every milestone, at most one step
is started that is there to reach it: one that creates the network, one that initialises the
caches, one that pulls a reference, however many containers share it, and one for each stage of a
container, whatever image, network and handle the step carries. -/
theorem started_at_most_once {project : Project} {task : String}
    (hresolve : Graph.resolve project task = .ok m.graph) (hreach : Reachable m t)
    (k : Milestone) : ((startedIn t.log).map Step.milestone).count k ≤ 1 := by
  have honce := (hreach.lawful (Graph.wellFormed_of_resolve hresolve)).once
  have hstarted : ((startedIn t.log).map Step.milestone).Nodup := by
    rw [List.map_append] at honce
    exact honce.sublist (List.sublist_append_left _ _)
  exact List.nodup_iff_count_le_one.1 hstarted k

/-- The wood of the shop is pulled once, although the ladder and the shelf are both made of it. -/
theorem wood_pulled_once :
    ((startedIn Shop.log).map Step.milestone).count (.pulled "wood") ≤ 1 := by
  obtain ⟨t, ht, hlog, -⟩ := Shop.reachable_log
  rw [← hlog]
  exact started_at_most_once Shop.resolve_project ht (.pulled "wood")

/-- Nothing is told twice. -/
theorem Reachable.told_once (hg : m.graph.WellFormed) (h : Reachable m t) :
    (t.log.filterMap Event.milestone?).Nodup := by
  induction h with
  | refl => simp
  | @tail t u ht hm ih =>
    rcases hm.log_cases with hlog | ⟨e, hlog⟩
    · rwa [hlog]
    · rw [hlog, List.filterMap_append, List.nodup_append]
      refine ⟨ih, ?_, ?_⟩
      · cases he : e.milestone? <;> simp [he]
      · intro k hk k' hk' hkk
        subst hkk
        obtain ⟨old, hold, hkold⟩ := List.mem_filterMap.1 hk
        obtain ⟨e', he', hke⟩ := List.mem_filterMap.1 hk'
        rw [List.mem_singleton.1 he'] at hke
        -- The step that tells of `k` is under way, but whoever reached `k` before is not.
        have hlawful := Reachable.lawful hg ht
        obtain ⟨step, hstep, hks⟩ := hm.underWay_of_milestone hlog hke
        obtain ⟨other, hother, hko, hnot⟩ := hlawful.earned k ⟨old, hold, hkold⟩
        have hsame := hlawful.eq_of_milestone_eq hother (hlawful.started.subset hstep)
          (hko.trans hks.symm)
        exact hnot (hsame ▸ hstep)

/-- What tells of one milestone is one event. -/
theorem Reachable.eq_of_milestone? (hg : m.graph.WellFormed) (h : Reachable m t) {e e' : Event}
    {k : Milestone} (he : e ∈ t.log) (he' : e' ∈ t.log) (hk : e.milestone? = some k)
    (hk' : e'.milestone? = some k) : e = e' := by
  have hpairs := List.pairwise_filterMap.1 (h.told_once hg)
  have hsymm : Std.Symm fun a b : Event =>
      ∀ k, a.milestone? = some k → ∀ k', b.milestone? = some k' → k ≠ k' := by
    refine ⟨?_⟩
    intro a b hab k hb k' ha
    exact (hab k' ha k hb).symm
  by_contra hne
  exact hpairs.forall he he' hne k hk k hk' rfl

/-- A container has one handle. -/
theorem Reachable.handle_unique (hg : m.graph.WellFormed) (h : Reachable m t) {c : String}
    {handle handle' : Handle} (hc : .containerCreated c handle ∈ t.log)
    (hc' : .containerCreated c handle' ∈ t.log) : handle = handle' := by
  have he := h.eq_of_milestone? hg (k := .created c) hc hc' rfl rfl
  exact (Event.containerCreated.inj he).2

end Stevedore.Moment
