/-
  OctaCity.Orchestrator.FixedPoint

  The reconciliation loop computes the settlement of the graph.  A visit decides a
  Job on partially propagated states.
-/
import OctaCity.Orchestrator.Settlement

namespace OctaCity.Orchestrator

open Domain Job Lib List Pipeline

/-! ## One visit -/

variable {graph : JobGraph} {node : JobGraphNode} {start states : JobId → JobState}

theorem Sweep.visit_withStates (hwf : WellFormed graph)
    (states : JobId → JobState) (jobTransitions : List JobGraphTransition) (changed : Bool)
    (hnode : node ∈ graph.rows) (hblk : states node.id = .blocked) :
    Sweep.visit ⟨graph.withStates states, jobTransitions, changed⟩ node.id =
      .ok (if node.decided states = .blocked then
          ⟨graph.withStates states, jobTransitions, changed⟩
        else
          ⟨graph.withStates (Function.update states node.id (node.decided states)),
            jobTransitions ++ [⟨node.id, node.decided states⟩], true⟩) := by
  have houts : node.dependencies.mapM (fun dependency =>
      okOr (((graph.withStates states).find? dependency).map fun predecessor =>
        dependencyOutcome predecessor.state)
        (OrchestrationError.unknownDependency node.id dependency)) =
      .ok (node.outcomes states) := by
    apply mapM_ok_of_forall
    intro dependency hdep
    obtain ⟨predecessor, hpred, rfl⟩ := hwf.closed node hnode dependency hdep
    rw [graph.withStates_find? states hpred]
    rfl
  unfold Sweep.visit
  simp only [graph.withStates_find? states hnode, okOr_some]
  rw [bind_eq_ok]
  refine ⟨_, rfl, bind_eq_ok.mpr ⟨_, houts, ?_⟩⟩
  have hcases : ∀ decision, node.dependencyPolicy.decide (node.outcomes states) = decision →
      node.decided states = decisionState decision := by
    intro decision hd
    rw [JobGraphNode.decided, hd]
  rcases hd : node.dependencyPolicy.decide (node.outcomes states) with _ | _ | _
  · simp [decisionEvent, hcases _ hd, decisionState]
  · simp [decisionEvent, hcases _ hd, decisionState, hblk, JobState.transition,
      JobGraph.setState_withStates]
  · simp [decisionEvent, hcases _ hd, decisionState, hblk, JobState.transition,
      JobGraph.setState_withStates]

/-! ## The loop invariant -/

/-- How far the loop has come from `start`: every decision taken is the decision on the
    current states, the transitions list each once, and other Jobs are as they were. -/
structure Progress (graph : JobGraph) (start states : JobId → JobState)
    (jobTransitions : List JobGraphTransition) : Prop where
  keeps : ∀ node ∈ graph.rows, start node.id ≠ .blocked → states node.id = start node.id
  decides : ∀ node ∈ graph.rows, start node.id = .blocked →
    states node.id = .blocked ∨ states node.id = node.decided states
  mem_iff : ∀ selected, selected ∈ jobTransitions ↔
    ∃ node ∈ graph.rows, selected = ⟨node.id, states node.id⟩ ∧ start node.id = .blocked ∧
      states node.id ≠ .blocked
  nodup : (jobTransitions.map (·.jobId)).Nodup

theorem Progress.initial (graph : JobGraph) (start : JobId → JobState) :
    Progress graph start start [] where
  keeps _ _ _ := rfl
  decides _ _ h := Or.inl h
  mem_iff selected := by
    constructor
    · intro h
      cases h
    · rintro ⟨node, -, -, hblk, hne⟩
      exact absurd hblk hne
  nodup := nodup_nil

section

variable {jobTransitions : List JobGraphTransition}
  (h : Progress graph start states jobTransitions) (hnode : node ∈ graph.rows)
  (hblk : states node.id = .blocked)

include h hnode hblk

theorem Progress.start_blocked : start node.id = .blocked := by
  by_contra hne
  exact hne (by rw [← h.keeps node hnode hne, hblk])

/-- Deciding one blocked Job keeps every decision taken before. -/
theorem Progress.step (hdecd : node.decided states ≠ .blocked) :
    Progress graph start (Function.update states node.id (node.decided states))
      (jobTransitions ++ [⟨node.id, node.decided states⟩]) := by
  have hstart := h.start_blocked hnode hblk
  have hother : ∀ m ∈ graph.rows, m.id ≠ node.id →
      Function.update states node.id (node.decided states) m.id = states m.id :=
    fun m _ hne => Function.update_of_ne hne _ _
  have hlearns : ∀ id, Learns (dependencyOutcome (states id))
      (dependencyOutcome (Function.update states node.id (node.decided states) id)) := by
    intro id
    by_cases hid : id = node.id
    · rw [hid]
      exact learns_of_blocked hblk
    · rw [Function.update_of_ne hid]
      exact Learns.refl _
  refine ⟨?_, ?_, ?_, ?_⟩
  · intro m hm hne
    have hid : m.id ≠ node.id := by
      intro heq
      rw [heq] at hne
      exact hne hstart
    rw [hother m hm hid]
    exact h.keeps m hm hne
  · intro m hm hmstart
    by_cases hid : m.id = node.id
    · have heq := graph.eq_of_key_eq hm hnode hid
      rw [heq, Function.update_self]
      exact Or.inr (node.decided_of_learns (fun d _ => hlearns d) hdecd).symm
    · rw [hother m hm hid]
      by_cases hmb : states m.id = .blocked
      · exact Or.inl hmb
      · have hmd := (h.decides m hm hmstart).resolve_left hmb
        refine Or.inr ?_
        rw [m.decided_of_learns (fun d _ => hlearns d) (by rw [← hmd]; exact hmb)]
        exact hmd
  · intro selected
    rw [mem_append, h.mem_iff, mem_singleton]
    constructor
    · rintro (⟨m, hm, rfl, hmstart, hmb⟩ | rfl)
      · have hid : m.id ≠ node.id := by
          intro heq
          rw [heq] at hmb
          exact hmb hblk
        exact ⟨m, hm, by rw [hother m hm hid], hmstart, by rw [hother m hm hid]; exact hmb⟩
      · exact ⟨node, hnode, by rw [Function.update_self], hstart,
          by rw [Function.update_self]; exact hdecd⟩
    · rintro ⟨m, hm, rfl, hmstart, hmb⟩
      by_cases hid : m.id = node.id
      · right
        rw [hid, Function.update_self]
      · left
        rw [hother m hm hid] at hmb ⊢
        exact ⟨m, hm, rfl, hmstart, hmb⟩
  · rw [map_append, nodup_append]
    refine ⟨h.nodup, nodup_singleton _, ?_⟩
    intro id hid id' hid' heq
    obtain ⟨selected, hsel, rfl⟩ := mem_map.mp hid
    obtain ⟨m, -, rfl, -, hmb⟩ := (h.mem_iff selected).mp hsel
    rw [map_singleton, mem_singleton] at hid'
    simp only at heq hid'
    rw [heq, hid'] at hmb
    exact hmb hblk

end

/-! ## Sweeps and the loop -/

/-- A pass over distinct blocked Jobs succeeds and keeps the invariant; one
    that changed nothing found nothing to decide. -/
theorem Progress.foldlM_visit (hwf : WellFormed graph) (ids : List JobId) (hnodup : ids.Nodup) :
    ∀ (states : JobId → JobState) (jobTransitions : List JobGraphTransition) (changed : Bool),
      Progress graph start states jobTransitions →
      (∀ id ∈ ids, (∃ node ∈ graph.rows, node.id = id) ∧ states id = .blocked) →
      ∃ states' jobTransitions' changed',
        ids.foldlM Sweep.visit ⟨graph.withStates states, jobTransitions, changed⟩ =
          .ok ⟨graph.withStates states', jobTransitions', changed'⟩ ∧
        Progress graph start states' jobTransitions' ∧
        (changed' = false → changed = false ∧ states' = states ∧
          ∀ node ∈ graph.rows, node.id ∈ ids → node.decided states = .blocked) := by
  induction ids with
  | nil =>
    intro states jobTransitions changed h _
    refine ⟨states, jobTransitions, changed, rfl, h, fun hc => ⟨hc, rfl, ?_⟩⟩
    intro node _ hid
    cases hid
  | cons id rest ih =>
    intro states jobTransitions changed h hids
    obtain ⟨⟨node, hnode, rfl⟩, hblk⟩ := hids id (mem_cons_self ..)
    rw [nodup_cons] at hnodup
    have hvisit := Sweep.visit_withStates hwf states jobTransitions changed hnode hblk
    by_cases hd : node.decided states = .blocked
    · rw [if_pos hd] at hvisit
      obtain ⟨states', ts', changed', hfold, hprog, hquiet⟩ :=
        ih hnodup.2 states jobTransitions changed h
          fun id hid => hids id (mem_cons_of_mem _ hid)
      refine ⟨states', ts', changed', bind_eq_ok.mpr ⟨_, hvisit, hfold⟩, hprog, ?_⟩
      intro hc
      obtain ⟨hcf, hstates, hrest⟩ := hquiet hc
      refine ⟨hcf, hstates, ?_⟩
      intro m hm hmid
      rcases mem_cons.mp hmid with heq | hmid
      · rw [graph.eq_of_key_eq hm hnode heq]
        exact hd
      · exact hrest m hm hmid
    · rw [if_neg hd] at hvisit
      obtain ⟨states', ts', changed', hfold, hprog, hquiet⟩ :=
        ih hnodup.2 _ _ true (h.step hnode hblk hd) (by
          intro id hid
          obtain ⟨hmem, hb⟩ := hids id (mem_cons_of_mem _ hid)
          refine ⟨hmem, ?_⟩
          rw [Function.update_of_ne]
          · exact hb
          · rintro rfl
            exact hnodup.1 hid)
      refine ⟨states', ts', changed', bind_eq_ok.mpr ⟨_, hvisit, hfold⟩, hprog, ?_⟩
      intro hc
      exact absurd (hquiet hc).1 (by decide)

theorem mem_blockedJobs {id : JobId} :
    id ∈ blockedJobs graph ↔ ∃ node ∈ graph.rows, node.id = id ∧ node.state = .blocked := by
  unfold blockedJobs
  rw [mem_filterMap]
  constructor
  · rintro ⟨node, hnode, h⟩
    split at h
    · rename_i hblk
      exact ⟨node, hnode, Option.some.inj h, hblk⟩
    · cases h
  · rintro ⟨node, hnode, rfl, hblk⟩
    exact ⟨node, hnode, if_pos hblk⟩

theorem blockedJobs_nodup (graph : JobGraph) : (blockedJobs graph).Nodup := by
  have hsub : (blockedJobs graph).Sublist (graph.rows.map (·.id)) := by
    unfold blockedJobs
    induction graph.rows with
    | nil => exact List.Sublist.refl _
    | cons node rest ih =>
      rw [filterMap_cons, map_cons]
      by_cases hblk : node.state = .blocked
      · simp only [hblk, if_true]
        exact ih.cons_cons _
      · simp only [hblk, if_false]
        exact ih.cons _
  exact hsub.nodup graph.keys_nodup

theorem mem_blockedJobs_withStates {id : JobId} : id ∈ blockedJobs (graph.withStates states) ↔
      (∃ node ∈ graph.rows, node.id = id) ∧ states id = .blocked := by
  rw [mem_blockedJobs]
  constructor
  · rintro ⟨_, hmem, rfl, hblk⟩
    obtain ⟨node, hnode, rfl⟩ := mem_map.mp hmem
    exact ⟨⟨node, hnode, rfl⟩, hblk⟩
  · rintro ⟨⟨node, hnode, rfl⟩, hblk⟩
    exact ⟨_, mem_map_of_mem hnode, rfl, hblk⟩

/-- The loop succeeds, keeps the invariant and stops with nothing to decide. -/
theorem Progress.settle (hwf : WellFormed graph) :
    ∀ (n : Nat) (states : JobId → JobState) (jobTransitions : List JobGraphTransition),
      blockedCount (graph.withStates states) = n → Progress graph start states jobTransitions →
      ∃ states' jobTransitions', settle (graph.withStates states) jobTransitions =
          .ok (graph.withStates states', jobTransitions') ∧
        Progress graph start states' jobTransitions' ∧
        ∀ node ∈ graph.rows, states' node.id = .blocked → node.decided states' = .blocked := by
  intro n
  induction n using Nat.strong_induction_on with
  | _ n ih =>
    intro states jobTransitions hn h
    obtain ⟨states', ts', changed', hfold, hprog, hquiet⟩ :=
      Progress.foldlM_visit hwf _ (blockedJobs_nodup (graph.withStates states)) states
        jobTransitions false h fun id hid => mem_blockedJobs_withStates.mp hid
    cases changed' with
    | true =>
      have hlt := (Sweep.foldlM_visit_measure hfold).2 rfl rfl
      obtain ⟨states'', ts'', hset, hrest⟩ :=
        ih _ (hn ▸ hlt) states' ts' rfl hprog
      refine ⟨states'', ts'', ?_, hrest⟩
      rw [Orchestrator.settle]
      split
      · rename_i herror
        rw [hfold] at herror
        cases herror
      · rename_i sweep hsweep
        rw [hfold] at hsweep
        cases hsweep
        exact hset
    | false =>
      obtain ⟨-, rfl, hblk⟩ := hquiet rfl
      refine ⟨states', ts', ?_, hprog, ?_⟩
      · rw [Orchestrator.settle]
        split
        · rename_i herror
          rw [hfold] at herror
          cases herror
        · rename_i sweep hsweep
          rw [hfold] at hsweep
          cases hsweep
          rfl
      · intro node hnode hb
        exact hblk node hnode (mem_blockedJobs_withStates.mpr ⟨⟨node, hnode, rfl⟩, hb⟩)

/-- The loop ends in a settlement and lists every changed Job once. -/
theorem settle_spec (hwf : WellFormed graph) : ∃ final jobTransitions,
      settle graph [] = .ok (graph.withStates final, jobTransitions) ∧
      IsSettlement graph.rows final ∧ Progress graph graph.stateOf final jobTransitions := by
  obtain ⟨final, jobTransitions, hset, hprog, hquiet⟩ :=
    Progress.settle hwf _ graph.stateOf [] rfl (Progress.initial graph graph.stateOf)
  rw [graph.withStates_stateOf] at hset
  refine ⟨final, jobTransitions, hset, ⟨?_, ?_⟩, hprog⟩
  · intro node hnode hne
    have hstate := graph.stateOf_of_mem hnode
    rw [hprog.keeps node hnode (by rw [hstate]; exact hne), hstate]
  · intro node hnode hblk
    have hstate := graph.stateOf_of_mem hnode
    rcases hprog.decides node hnode (by rw [hstate]; exact hblk) with hb | hd
    · rw [hb, hquiet node hnode hb]
    · exact hd

end OctaCity.Orchestrator
