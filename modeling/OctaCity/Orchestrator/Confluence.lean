/-
  OctaCity.Orchestrator.Confluence

  Job outcomes and reconciler runs may interleave in any order.  Take the
  settlement `target` of the graph in which every outcome has arrived.
-/
import OctaCity.Orchestrator.Outcome

namespace OctaCity.Orchestrator

open Domain Function Job Lib List Pipeline

/-- One step of an Attempt: a Job outcome arrives, or the reconciler runs and
    its transitions are stored. -/
inductive GraphStep
  | arrive (outcome : JobGraphTransition)
  | reconcile

def GraphStep.apply (nodes : List JobGraphNode) :
    GraphStep → Except OrchestrationError (List JobGraphNode)
  | .arrive outcome => .ok (storeOutcome nodes outcome)
  | .reconcile => do
    let decision ← reconcileJobGraph nodes
    .ok (applyTransitions nodes decision.jobTransitions)

def GraphStep.outcome? : GraphStep → Option JobGraphTransition
  | .arrive outcome => some outcome
  | .reconcile => none

/-- Outcomes that move distinct active Jobs to terminal states. -/
structure IsOutcomeSet (nodes : List JobGraphNode) (outcomes : List JobGraphTransition) : Prop where
  nodup : (outcomes.map (·.jobId)).Nodup
  active : ∀ outcome ∈ outcomes, ∃ node ∈ nodes, node.id = outcome.jobId ∧
    node.state ≠ .blocked ∧ node.state.isTerminal = false
  terminal : ∀ outcome ∈ outcomes, outcome.state.isTerminal = true

/-! ## States under outcomes -/

theorem foldl_storeOutcome (nodes : List JobGraphNode) (outcomes : List JobGraphTransition)
    (states : JobId → JobState) : outcomes.foldl storeOutcome (nodesWithStates nodes states) =
      nodesWithStates nodes (outcomes.foldl storeState states) := by
  induction outcomes generalizing states with
  | nil => rfl
  | cons outcome rest ih =>
    rw [foldl_cons, foldl_cons, storeOutcome_withStates, ih]

variable {states target : JobId → JobState} {graph : JobGraph}

variable {outcomes : List JobGraphTransition} {outcome : JobGraphTransition}

theorem foldl_storeState_of_not_mem {id : JobId} (h : id ∉ outcomes.map (·.jobId)) :
    outcomes.foldl storeState states id = states id := by
  induction outcomes generalizing states with
  | nil => rfl
  | cons outcome rest ih =>
    rw [map_cons, mem_cons, not_or] at h
    rw [foldl_cons, ih h.2, storeState, update_of_ne h.1]

theorem foldl_storeState_of_mem (hnodup : (outcomes.map (·.jobId)).Nodup) (h : outcome ∈ outcomes) :
    outcomes.foldl storeState states outcome.jobId = outcome.state := by
  induction outcomes generalizing states with
  | nil => cases h
  | cons first rest ih =>
    rw [map_cons, nodup_cons] at hnodup
    rw [foldl_cons]
    rcases mem_cons.mp h with rfl | h
    · rw [foldl_storeState_of_not_mem hnodup.1, storeState, update_self]
    · exact ih hnodup.2 h

/-! ## The invariant of a run -/

/-- Where a Job stands on its way from `start` to `target`. -/
def Approaches (start target state : JobState) : Prop :=
  state = target ∨ (state = start ∧ (start = .blocked ∨ isActive start = true))

theorem Approaches.learns {start target state : JobState} (h : Approaches start target state) :
    Learns (dependencyOutcome state) (dependencyOutcome target) := by
  rcases h with rfl | ⟨rfl, hblk | hact⟩
  · exact Learns.refl _
  · exact learns_of_blocked hblk
  · left
    cases state <;> simp_all [isActive, dependencyOutcome]

/-- Every Job of the graph approaches its target. -/
def RunSound (graph : JobGraph) (target states : JobId → JobState) : Prop :=
  ∀ node ∈ graph.rows, Approaches node.state (target node.id) (states node.id)

/-- `target` settles the graph once its outcomes have arrived: blocked Jobs are
    decided on it, and the others never become blocked. -/
structure IsTarget (graph : JobGraph) (target : JobId → JobState) : Prop where
  decides : ∀ node ∈ graph.rows, node.state = .blocked → target node.id = node.decided target
  unblocked : ∀ node ∈ graph.rows, node.state ≠ .blocked → target node.id ≠ .blocked

theorem RunSound.start_blocked (htgt : IsTarget graph target) (h : RunSound graph target states)
    {node : JobGraphNode} (hnode : node ∈ graph.rows) (hblk : states node.id = .blocked) :
    node.state = .blocked := by
  by_contra hne
  rcases h node hnode with heq | ⟨heq, -⟩
  · exact htgt.unblocked node hnode hne (by rw [← heq, hblk])
  · exact hne (by rw [← heq, hblk])

/-- A reconciler run keeps every Job on its way to the target. -/
theorem RunSound.settlement (hwf : WellFormed graph)
    {final : JobId → JobState} (htgt : IsTarget graph target) (h : RunSound graph target states)
    (hfinal : IsSettlement (graph.withStates states).rows final) : RunSound graph target final := by
  -- Induction along the dependencies: a decision is compared with the target
  -- on predecessors that are already known to approach theirs.
  have key : ∀ id, Acc (DependsOn graph.rows) id → ∀ node ∈ graph.rows, node.id = id →
      Approaches node.state (target node.id) (final node.id) := by
    intro id hacc
    induction hacc with
    | intro id _ ih =>
      rintro node hnode rfl
      have hmem : { node with state := states node.id } ∈ (graph.withStates states).rows :=
        mem_map_of_mem hnode
      by_cases hblk : states node.id = .blocked
      · have hstart := h.start_blocked htgt hnode hblk
        have hdecd : final node.id = node.decided final :=
          hfinal.decides { node with state := states node.id } hmem hblk
        by_cases hfb : final node.id = .blocked
        · exact Or.inr ⟨by rw [hfb, hstart], Or.inl hstart⟩
        · left
          rw [htgt.decides node hnode hstart, hdecd]
          symm
          refine node.decided_of_learns ?_ (by rw [← hdecd]; exact hfb)
          intro dependency hdep
          obtain ⟨predecessor, hpred, rfl⟩ := hwf.closed node hnode dependency hdep
          exact (ih predecessor.id ⟨node, hnode, rfl, hdep⟩ predecessor hpred rfl).learns
      · rw [show final node.id = states node.id from hfinal.keeps _ hmem hblk]
        exact h node hnode
  intro node hnode
  exact key node.id (hwf.acyclic node hnode) node hnode rfl

theorem RunSound.validate (hvalid : validateGraph graph = .ok ()) (htgt : IsTarget graph target)
    (h : RunSound graph target states) : validateGraph (graph.withStates states) = .ok () :=
  JobGraph.validateGraph_withStates
    (fun _ hnode hblk => h.start_blocked htgt hnode hblk) hvalid

/-- An arriving outcome keeps every Job on its way when it is the target's. -/
theorem RunSound.arrive (h : RunSound graph target states)
    (hout : target outcome.jobId = outcome.state) :
    RunSound graph target (storeState states outcome) := by
  intro node hnode
  by_cases hid : node.id = outcome.jobId
  · left
    rw [hid, storeState, update_self, hout]
  · rw [storeState, update_of_ne hid]
    exact h node hnode

/-- A run succeeds, keeps every Job on its way and stores every arrived outcome. -/
theorem RunSound.run {nodes : List JobGraphNode} (hcoll : collectGraph nodes = .ok graph)
    (hvalid : validateGraph graph = .ok ()) (htgt : IsTarget graph target)
    (steps : List GraphStep) : ∀ states, RunSound graph target states →
      (∀ outcome ∈ steps.filterMap GraphStep.outcome?, target outcome.jobId = outcome.state ∧
        outcome.state ≠ .blocked) →
      ∃ reached, steps.foldlM GraphStep.apply (nodesWithStates nodes states) =
          .ok (nodesWithStates nodes reached) ∧ RunSound graph target reached ∧
        (∀ node ∈ graph.rows, states node.id ≠ .blocked → states node.id = target node.id →
          reached node.id = target node.id) ∧
        ∀ outcome ∈ steps.filterMap GraphStep.outcome?, ∀ node ∈ graph.rows,
          node.id = outcome.jobId → reached node.id = target node.id := by
  induction steps with
  | nil =>
    intro states h _
    refine ⟨states, rfl, h, fun _ _ _ heq => heq, ?_⟩
    intro outcome hout
    cases hout
  | cons step rest ih =>
    intro states h houts
    cases step with
    | arrive outcome =>
      have hfirst := houts outcome (by simp [GraphStep.outcome?])
      obtain ⟨reached, hrun, hsound, hstay, hdone⟩ := ih (storeState states outcome)
        (h.arrive hfirst.1) fun o ho => houts o (by
          rw [filterMap_cons]
          exact mem_cons_of_mem _ ho)
      refine ⟨reached, ?_, hsound, ?_, ?_⟩
      · rw [foldlM_cons]
        refine bind_eq_ok.mpr ⟨_, rfl, ?_⟩
        rw [storeOutcome_withStates]
        exact hrun
      · intro node hnode hne heq
        by_cases hid : node.id = outcome.jobId
        · refine hstay node hnode ?_ ?_
          · rw [hid, storeState, update_self]
            exact hfirst.2
          · rw [hid, storeState, update_self, hfirst.1]
        · refine hstay node hnode ?_ ?_
          · rw [storeState, update_of_ne hid]
            exact hne
          · rw [storeState, update_of_ne hid]
            exact heq
      · intro o ho node hnode hid
        rw [filterMap_cons] at ho
        rcases mem_cons.mp ho with rfl | ho
        · refine hstay node hnode ?_ ?_
          · rw [hid, storeState, update_self]
            exact hfirst.2
          · rw [hid, storeState, update_self, hfirst.1]
        · exact hdone o ho node hnode hid
    | reconcile =>
      obtain ⟨final, decision, hrec, hfinal, happly, -⟩ := reconcile_spec
        (collectGraph_withStates hcoll states) (h.validate hvalid htgt)
      have hwf := WellFormed.of_validateGraph hvalid
      obtain ⟨reached, hrun, hsound, hstay, hdone⟩ := ih final
        (h.settlement hwf htgt hfinal) houts
      refine ⟨reached, ?_, hsound, ?_, hdone⟩
      · rw [foldlM_cons]
        refine bind_eq_ok.mpr ⟨_, bind_eq_ok.mpr ⟨decision, hrec, rfl⟩, ?_⟩
        rw [happly, nodesWithStates, nodesWithStates, map_map]
        exact hrun
      · intro node hnode hne heq
        have hkeep : final node.id = states node.id :=
          hfinal.keeps _ (mem_map_of_mem hnode) hne
        exact hstay node hnode (by rw [hkeep]; exact hne) (by rw [hkeep, heq])

/-! ## Confluence -/

/-- Whatever order the outcomes arrive in, and however often the reconciler
    runs between them, the Attempt ends as if they had arrived together. -/
theorem reconcileJobGraph_confluent (nodes : List JobGraphNode)
    (outcomes : List JobGraphTransition) (steps : List GraphStep)
    (haccepted : validateJobGraph nodes = .ok ()) (houts : IsOutcomeSet nodes outcomes)
    (hsteps : (steps.filterMap GraphStep.outcome?).Perm outcomes) : ∃ reached decision together,
      steps.foldlM GraphStep.apply nodes = .ok reached ∧ reconcileJobGraph reached = .ok decision ∧
      reconcileJobGraph (outcomes.foldl storeOutcome nodes) = .ok together ∧
      applyTransitions reached decision.jobTransitions =
        applyTransitions (outcomes.foldl storeOutcome nodes) together.jobTransitions ∧
      decision.attemptState = together.attemptState ∧
      decision.buildState = together.buildState := by
  obtain ⟨graph, hcoll, hvalid⟩ := validateJobGraph_eq_ok.mp haccepted
  have hwf := WellFormed.of_validateGraph hvalid
  have hperm := (collectGraph_eq_ok hcoll).2.2
  have hself := nodesWithStates_self hcoll
  -- The states once every outcome has arrived.
  have hall : outcomes.foldl storeOutcome nodes =
      nodesWithStates nodes (outcomes.foldl storeState graph.stateOf) := by
    conv_lhs => rw [← hself]
    rw [foldl_storeOutcome]
  generalize hlate : outcomes.foldl storeState graph.stateOf = late at hall
  have hlate_mem : ∀ outcome ∈ outcomes, late outcome.jobId = outcome.state := by
    intro outcome ho
    rw [← hlate]
    exact foldl_storeState_of_mem houts.nodup ho
  have hlate_not : ∀ node ∈ graph.rows, node.id ∉ outcomes.map (·.jobId) →
      late node.id = node.state := by
    intro node hnode hnot
    rw [← hlate, foldl_storeState_of_not_mem hnot, graph.stateOf_of_mem hnode]
  have hlate_blocked : ∀ node ∈ graph.rows, late node.id = .blocked ↔ node.state = .blocked := by
    intro node hnode
    by_cases hid : node.id ∈ outcomes.map (·.jobId)
    · obtain ⟨outcome, ho, hoid⟩ := mem_map.mp hid
      obtain ⟨m, hm, hmid, hmne, -⟩ := houts.active outcome ho
      have hmeq : m = node :=
        graph.eq_of_key_eq (hperm.mem_iff.mpr hm) hnode (hmid.trans hoid)
      have hstate := hlate_mem outcome ho
      have hterm := houts.terminal outcome ho
      rw [← hoid, hstate, ← hmeq]
      constructor
      · intro hb
        rw [hb] at hterm
        cases hterm
      · exact fun hb => absurd hb hmne
    · rw [hlate_not node hnode hid]
  have hvalid_late := JobGraph.validateGraph_withStates
    (fun node hnode => (hlate_blocked node hnode).mp) hvalid
  obtain ⟨target, together, htogether, htgt, happly, -, -, hatt, hbuild⟩ :=
    reconcile_spec (collectGraph_withStates hcoll late) hvalid_late
  have hkeep : ∀ node ∈ graph.rows, node.state ≠ .blocked → target node.id = late node.id :=
    fun node hnode hne => htgt.keeps _ (mem_map_of_mem hnode)
      fun hb => hne ((hlate_blocked node hnode).mp hb)
  have hisTarget : IsTarget graph target := by
    refine ⟨?_, ?_⟩
    · intro node hnode hblk
      exact htgt.decides { node with state := late node.id } (mem_map_of_mem hnode)
        ((hlate_blocked node hnode).mpr hblk)
    · intro node hnode hne
      rw [hkeep node hnode hne]
      exact fun hb => hne ((hlate_blocked node hnode).mp hb)
  have htarget_mem : ∀ outcome ∈ outcomes, target outcome.jobId = outcome.state := by
    intro outcome ho
    obtain ⟨m, hm, hmid, hmne, -⟩ := houts.active outcome ho
    rw [← hlate_mem outcome ho, ← hmid]
    exact hkeep m (hperm.mem_iff.mpr hm) hmne
  have hstart : RunSound graph target graph.stateOf := by
    intro node hnode
    rw [graph.stateOf_of_mem hnode]
    by_cases hid : node.id ∈ outcomes.map (·.jobId)
    · obtain ⟨outcome, ho, hoid⟩ := mem_map.mp hid
      obtain ⟨m, hm, hmid, hmne, hmt⟩ := houts.active outcome ho
      rw [graph.eq_of_key_eq (hperm.mem_iff.mpr hm) hnode (hmid.trans hoid)] at hmne hmt
      refine Or.inr ⟨rfl, Or.inr ?_⟩
      rcases isActive_or node.state with hb | ha | ht
      · exact absurd hb hmne
      · exact ha
      · rw [ht] at hmt
        cases hmt
    · by_cases hblk : node.state = .blocked
      · exact Or.inr ⟨rfl, Or.inl hblk⟩
      · left
        rw [hkeep node hnode hblk, hlate_not node hnode hid]
  obtain ⟨reached, hrun, hsound, -, hdone⟩ :=
    RunSound.run hcoll hvalid hisTarget steps graph.stateOf hstart (by
      intro outcome ho
      have ho' := hsteps.mem_iff.mp ho
      refine ⟨htarget_mem outcome ho', ?_⟩
      intro hb
      have := houts.terminal outcome ho'
      rw [hb] at this
      cases this)
  -- Every Job that was not blocked has arrived at its target.
  have harrived : ∀ node ∈ graph.rows, node.state ≠ .blocked →
      reached node.id = target node.id := by
    intro node hnode hne
    by_cases hid : node.id ∈ outcomes.map (·.jobId)
    · obtain ⟨outcome, ho, hoid⟩ := mem_map.mp hid
      exact hdone outcome (hsteps.mem_iff.mpr ho) node hnode hoid.symm
    · rcases hsound node hnode with heq | ⟨heq, -⟩
      · exact heq
      · rw [heq, hkeep node hnode hne, hlate_not node hnode hid]
  have hsets : IsSettlement (graph.withStates reached).rows target := by
    refine ⟨?_, ?_⟩
    · intro node' hnode' hne
      obtain ⟨node, hnode, rfl⟩ := mem_map.mp hnode'
      rcases hsound node hnode with heq | ⟨heq, hstart'⟩
      · exact heq.symm
      · exact (harrived node hnode (by rw [← heq]; exact hne)).symm
    · intro node' hnode' hblk
      obtain ⟨node, hnode, rfl⟩ := mem_map.mp hnode'
      exact hisTarget.decides node hnode (hsound.start_blocked hisTarget hnode hblk)
  have hvalid' := hsound.validate hvalid hisTarget
  obtain ⟨final, decision, hdec, hfinal, happly', -, -, hatt', hbuild'⟩ :=
    reconcile_spec (collectGraph_withStates hcoll reached) hvalid'
  have hsame : ∀ node ∈ graph.rows, final node.id = target node.id := by
    intro node hnode
    exact hfinal.unique (WellFormed.of_validateGraph hvalid') hsets
      { node with state := reached node.id } (mem_map_of_mem hnode)
  have hatts : decision.attemptState = together.attemptState := by
    rw [hatt, hatt', JobGraph.withStates_rows, JobGraph.withStates_rows, map_map,
      map_map]
    congr 1
    apply map_congr_left
    exact hsame
  refine ⟨nodesWithStates nodes reached, decision, together, ?_, hdec, ?_, ?_, hatts, ?_⟩
  · conv_lhs => rw [← hself]
    exact hrun
  · rw [hall]
    exact htogether
  · rw [hall, happly, happly']
    unfold nodesWithStates
    rw [map_map, map_map]
    apply map_congr_left
    intro node hnode
    simp only [comp_apply]
    rw [hsame node (hperm.mem_iff.mpr hnode)]
  · rw [hbuild, hbuild', hatts]

/-- Two running roots, a Job that needs either of them and one that needs both. -/
def racingRoots : List JobGraphNode :=
  [.numbered 1 .running [] .allSucceeded, .numbered 2 .leased [] .allSucceeded,
   .numbered 3 .blocked [1, 2] .anySucceeded, .numbered 4 .blocked [1, 2] .allSucceeded]

theorem racingRoots_confluent : ∃ reached decision together,
      [.arrive ⟨⟨2⟩, .failed⟩, .reconcile, .arrive ⟨⟨1⟩, .succeeded⟩].foldlM GraphStep.apply
        racingRoots = .ok reached ∧ reconcileJobGraph reached = .ok decision ∧
      reconcileJobGraph ([⟨⟨1⟩, .succeeded⟩, ⟨⟨2⟩, .failed⟩].foldl storeOutcome racingRoots) =
        .ok together ∧ decision.attemptState = together.attemptState := by
  obtain ⟨reached, decision, together, hrun, hdec, htogether, -, hatt, -⟩ :=
    reconcileJobGraph_confluent racingRoots [⟨⟨1⟩, .succeeded⟩, ⟨⟨2⟩, .failed⟩]
      [.arrive ⟨⟨2⟩, .failed⟩, .reconcile, .arrive ⟨⟨1⟩, .succeeded⟩]
      (by decide +kernel) ⟨by decide, by decide, by decide⟩ (by decide)
  exact ⟨reached, decision, together, hrun, hdec, htogether, hatt⟩

end OctaCity.Orchestrator
