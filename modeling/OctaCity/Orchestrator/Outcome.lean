/-
  OctaCity.Orchestrator.Outcome

  What a reconciliation decision says about the Attempt.  `reconcile_spec`
  describes the decision for a validated graph: the settled states, stored by
  `applyTransitions`, and the derived Attempt and Build states.
-/
import OctaCity.Orchestrator.FixedPoint

namespace OctaCity.Orchestrator

open Domain Job Lib List Pipeline

/-! ## Rows with other states -/

/-- The same Jobs with the given states. -/
def nodesWithStates (nodes : List JobGraphNode) (states : JobId → JobState) :
    List JobGraphNode :=
  nodes.map fun node => { node with state := states node.id }

/-- The persisted state of a Job. -/
def statesOf (nodes : List JobGraphNode) (id : JobId) : JobState :=
  match nodes.find? (·.id = id) with
  | some node => node.state
  | none => .blocked

variable {nodes : List JobGraphNode} {graph : JobGraph} {node : JobGraphNode}
  {final : JobId → JobState}

theorem collectGraph_eq_ok (h : collectGraph nodes = .ok graph) :
    (Table.empty : JobGraph).insertAll (fun node => OrchestrationError.duplicateJob node.id) nodes =
        .ok graph ∧ graph.rows.isEmpty = false ∧ graph.rows.Perm nodes := by
  obtain ⟨graph', hins, h⟩ := bind_eq_ok.mp h
  split at h
  · cases h
  · rename_i hne
    cases h
    exact ⟨hins, by simpa using hne, by simpa [Table.empty] using Table.insertAll_eq_ok hins⟩

theorem collectGraph_perm {nodes' : List JobGraphNode}
    (hp : nodes'.Perm nodes) (h : collectGraph nodes = .ok graph) :
    collectGraph nodes' = .ok graph := by
  obtain ⟨hins, hne, -⟩ := collectGraph_eq_ok h
  refine bind_eq_ok.mpr ⟨graph, Table.insertAll_perm hp hins, ?_⟩
  rw [if_neg (by simp [hne])]

/-- Storing other states does not change which Jobs are collected. -/
theorem collectGraph_withStates (h : collectGraph nodes = .ok graph) (states : JobId → JobState) :
    collectGraph (nodesWithStates nodes states) = .ok (graph.withStates states) := by
  obtain ⟨-, hne, hperm⟩ := collectGraph_eq_ok h
  have hrows : (graph.withStates states).rows.Perm (nodesWithStates nodes states) :=
    hperm.map _
  have hnodup : ((nodesWithStates nodes states ++ (Table.empty : JobGraph).rows).map
      JobGraphNode.id).Nodup := by
    have := (graph.withStates states).keys_nodup
    rw [(hrows.map _).nodup_iff] at this
    simpa [Table.empty] using this
  obtain ⟨graph', hgraph'⟩ := Table.insertAll_isOk
    (fun node => OrchestrationError.duplicateJob node.id) _ Table.empty hnodup
  have hrows' : graph'.rows.Perm (nodesWithStates nodes states) := by
    simpa [Table.empty] using Table.insertAll_eq_ok hgraph'
  have heq : graph' = graph.withStates states := Table.eq_of_perm (hrows'.trans hrows.symm)
  refine bind_eq_ok.mpr ⟨graph', hgraph', ?_⟩
  rw [heq, if_neg]
  rw [JobGraph.withStates_rows]
  simpa using hne

theorem find?_id_of_perm (hperm : graph.rows.Perm nodes) (hnode : node ∈ nodes) :
    nodes.find? (·.id = node.id) = some node := by
  have hnodup : (nodes.map (·.id)).Nodup :=
    (hperm.map JobGraphNode.id).nodup_iff.mp graph.keys_nodup
  exact (find?_key_eq_some hnodup).mpr ⟨hnode, rfl⟩

section

variable (hcoll : collectGraph nodes = .ok graph)

include hcoll

theorem statesOf_of_mem (hnode : node ∈ nodes) : statesOf nodes node.id = node.state := by
  rw [statesOf, find?_id_of_perm (collectGraph_eq_ok hcoll).2.2 hnode]

theorem statesOf_withStates (states : JobId → JobState) (hnode : node ∈ nodes) :
    statesOf (nodesWithStates nodes states) node.id = states node.id :=
  statesOf_of_mem (collectGraph_withStates hcoll states) (mem_map_of_mem hnode)

theorem nodesWithStates_self : nodesWithStates nodes graph.stateOf = nodes := by
  unfold nodesWithStates
  conv_rhs => rw [← map_id nodes]
  apply map_congr_left
  intro node hnode
  rw [graph.stateOf_of_mem ((collectGraph_eq_ok hcoll).2.2.mem_iff.mpr hnode)]
  rfl

end

/-- One Job's new state stored in its row. -/
def storeOutcome (nodes : List JobGraphNode) (outcome : JobGraphTransition) :
    List JobGraphNode :=
  nodes.map (setNodeState outcome.jobId outcome.state)

def storeState (states : JobId → JobState) (outcome : JobGraphTransition) : JobId → JobState :=
  Function.update states outcome.jobId outcome.state

theorem storeOutcome_withStates (nodes : List JobGraphNode) (states : JobId → JobState)
    (outcome : JobGraphTransition) : storeOutcome (nodesWithStates nodes states) outcome =
      nodesWithStates nodes (storeState states outcome) := by
  unfold storeOutcome nodesWithStates storeState
  rw [map_map]
  apply map_congr_left
  intro node _
  rw [Function.comp_apply, setNodeState]
  by_cases h : node.id = outcome.jobId
  · simp [h]
  · simp [h]

/-! ## The decision -/

theorem find?_of_progress {jobTransitions sorted : List JobGraphTransition}
    (h : Progress graph graph.stateOf final jobTransitions) (hsort : sorted.Perm jobTransitions)
    (hnode : node ∈ graph.rows) :
    (match sorted.find? (·.jobId = node.id) with
      | some selected => { node with state := selected.state }
      | none => node) = { node with state := final node.id } := by
  cases hfind : sorted.find? (·.jobId = node.id) with
  | some selected =>
    have hid : selected.jobId = node.id := by simpa using List.find?_some hfind
    have hmem : selected ∈ jobTransitions := hsort.mem_iff.mp (mem_of_find?_eq_some hfind)
    obtain ⟨m, -, rfl, -, -⟩ := (h.mem_iff selected).mp hmem
    simp only at hid ⊢
    rw [hid]
  | none =>
    have hnone := List.find?_eq_none.mp hfind
    have hstate := graph.stateOf_of_mem hnode
    have hfinal : final node.id = node.state := by
      by_cases hstart : graph.stateOf node.id = .blocked
      · by_cases hb : final node.id = .blocked
        · rw [hb, ← hstate, hstart]
        · exfalso
          have hmem := (h.mem_iff ⟨node.id, final node.id⟩).mpr ⟨node, hnode, rfl, hstart, hb⟩
          simpa using hnone _ (hsort.mem_iff.mpr hmem)
      · rw [h.keeps node hnode hstart, hstate]
    rw [hfinal]

/-- Reconciling a validated graph stores its settlement. -/
theorem reconcile_spec
    (hcoll : collectGraph nodes = .ok graph) (hvalid : validateGraph graph = .ok ()) :
    ∃ final decision, reconcileJobGraph nodes = .ok decision ∧ IsSettlement graph.rows final ∧
      applyTransitions nodes decision.jobTransitions = nodesWithStates nodes final ∧
      (decision.jobTransitions.map (·.jobId)).Nodup ∧
      (∀ selected ∈ decision.jobTransitions, ∃ node ∈ graph.rows,
        node.state = .blocked ∧ selected = ⟨node.id, final node.id⟩ ∧ final node.id ≠ .blocked) ∧
      decision.attemptState = deriveAttemptState (graph.rows.map fun node => final node.id) false ∧
      decision.buildState = deriveBuildState decision.attemptState := by
  obtain ⟨final, jobTransitions, hset, hfinal, hprog⟩ :=
    settle_spec (WellFormed.of_validateGraph hvalid)
  have hsort := perm_insertionSort
    (fun a b : JobGraphTransition => a.jobId ≤ b.jobId) jobTransitions
  refine ⟨final, _, bind_eq_ok.mpr ⟨graph, hcoll, bind_eq_ok.mpr ⟨(), hvalid,
    bind_eq_ok.mpr ⟨_, hset, rfl⟩⟩⟩, hfinal, ?_, ?_, ?_, ?_, rfl⟩
  · apply map_congr_left
    intro node hnode
    exact find?_of_progress hprog hsort
      ((collectGraph_eq_ok hcoll).2.2.mem_iff.mpr hnode)
  · exact (hsort.map (·.jobId)).nodup_iff.mpr hprog.nodup
  · intro selected hsel
    obtain ⟨node, hnode, rfl, hstart, hne⟩ :=
      (hprog.mem_iff selected).mp (hsort.mem_iff.mp hsel)
    rw [graph.stateOf_of_mem hnode] at hstart
    exact ⟨node, hnode, hstart, rfl, hne⟩
  · rw [JobGraph.withStates_rows, map_map]
    rfl

theorem validateJobGraph_eq_ok : validateJobGraph nodes = .ok () ↔
      ∃ graph, collectGraph nodes = .ok graph ∧ validateGraph graph = .ok () :=
  bind_eq_ok

theorem validateJobGraph_of_reconcile {cancelled : Bool}
    {decision : OrchestrationDecision} (h : reconcile nodes cancelled = .ok decision) :
    validateJobGraph nodes = .ok () := by
  obtain ⟨graph, hcoll, h⟩ := bind_eq_ok.mp h
  obtain ⟨_, hvalid, -⟩ := bind_eq_ok.mp h
  exact validateJobGraph_eq_ok.mpr ⟨graph, hcoll, hvalid⟩

/-- A settled graph is settled by its own states. -/
theorem IsSettlement.withStates
    (h : IsSettlement graph.rows final) : IsSettlement (graph.withStates final).rows final := by
  refine ⟨?_, ?_⟩
  · intro node' hnode' _
    obtain ⟨node, -, rfl⟩ := mem_map.mp hnode'
    rfl
  · intro node' hnode' hblk
    obtain ⟨node, hnode, rfl⟩ := mem_map.mp hnode'
    have hstart : node.state = .blocked := by
      by_contra hne
      exact hne (by rw [← h.keeps node hnode hne]; exact hblk)
    exact h.decides node hnode hstart

/-- A settlement blocks only Jobs that were blocked. -/
theorem IsSettlement.blocked (h : IsSettlement graph.rows final) :
    ∀ node ∈ graph.rows, final node.id = .blocked → node.state = .blocked := by
  intro node hnode hblk
  by_contra hne
  exact hne (by rw [← h.keeps node hnode hne]; exact hblk)

/-- Reconciling the rows a settlement was stored in changes nothing. -/
theorem reconcile_settled
    (hcoll : collectGraph nodes = .ok graph) (hvalid : validateGraph graph = .ok ())
    (hfinal : IsSettlement graph.rows final) {attemptState : AttemptState}
    (hatt : attemptState = deriveAttemptState (graph.rows.map fun node => final node.id) false) :
    reconcileJobGraph (nodesWithStates nodes final) =
      .ok ⟨[], attemptState, deriveBuildState attemptState⟩ := by
  have hvalid' : validateGraph (graph.withStates final) = .ok () :=
    JobGraph.validateGraph_withStates hfinal.blocked hvalid
  obtain ⟨final', decision, hrec, hfinal', -, -, htrans, hatt', hbuild⟩ :=
    reconcile_spec (collectGraph_withStates hcoll final) hvalid'
  have heq := hfinal'.unique (WellFormed.of_validateGraph hvalid') hfinal.withStates
  have hnone : decision.jobTransitions = [] := by
    rw [eq_nil_iff_forall_not_mem]
    intro selected hsel
    obtain ⟨node, hnode, hblk, rfl, hne⟩ := htrans selected hsel
    apply hne
    rw [heq node hnode]
    obtain ⟨m, -, rfl⟩ := mem_map.mp hnode
    exact hblk
  have hstates : decision.attemptState = attemptState := by
    rw [hatt', hatt, JobGraph.withStates_rows, map_map]
    congr 1
    apply map_congr_left
    intro node hnode
    exact heq _ (mem_map_of_mem hnode)
  rw [hrec]
  cases decision
  simp_all

/-- Reconciliation computes the unique dependency fixed point of a validated graph in any
    order of its Jobs, moves each Job at most once, and replaying its result is a no-op. -/
theorem reconcileJobGraph_fixed_point (nodes : List JobGraphNode)
    (hacc : validateJobGraph nodes = .ok ()) :
    ∃ decision, reconcileJobGraph nodes = .ok decision ∧
      IsSettlement nodes (statesOf (applyTransitions nodes decision.jobTransitions)) ∧
      (∀ final, IsSettlement nodes final → ∀ node ∈ nodes,
        final node.id = statesOf (applyTransitions nodes decision.jobTransitions) node.id) ∧
      (∀ nodes', nodes'.Perm nodes → reconcileJobGraph nodes' = .ok decision) ∧
      (decision.jobTransitions.map (·.jobId)).Nodup ∧
      reconcileJobGraph (applyTransitions nodes decision.jobTransitions) =
        .ok { decision with jobTransitions := [] } := by
  obtain ⟨graph, hcoll, hvalid⟩ := validateJobGraph_eq_ok.mp hacc
  obtain ⟨final, decision, hrec, hfinal, happly, hnodup, -, hatt, hbuild⟩ :=
    reconcile_spec hcoll hvalid
  have hwf := WellFormed.of_validateGraph hvalid
  have hperm := (collectGraph_eq_ok hcoll).2.2
  have hstates : ∀ node ∈ nodes, statesOf (nodesWithStates nodes final) node.id = final node.id :=
    fun node hnode => statesOf_withStates hcoll final hnode
  refine ⟨decision, hrec, ?_, ?_, ?_, hnodup, ?_⟩
  · rw [happly]
    refine ⟨?_, ?_⟩
    · intro node hnode hne
      rw [hstates node hnode]
      exact hfinal.keeps node (hperm.mem_iff.mpr hnode) hne
    · intro node hnode hblk
      have hnode' := hperm.mem_iff.mpr hnode
      rw [hstates node hnode, hfinal.decides node hnode' hblk]
      apply node.decided_congr
      intro dependency hdep
      obtain ⟨predecessor, hpred, rfl⟩ := hwf.closed node hnode' dependency hdep
      exact (hstates predecessor (hperm.mem_iff.mp hpred)).symm
  · intro final' hfinal' node hnode
    rw [happly, hstates node hnode]
    exact (hfinal'.perm hperm).unique hwf hfinal node (hperm.mem_iff.mpr hnode)
  · intro nodes' hp
    have hcoll' := collectGraph_perm hp hcoll
    -- Both orders collect the same table, and nothing after that reads the order.
    have hsame : reconcileJobGraph nodes' = reconcileJobGraph nodes := by
      rw [reconcileJobGraph, reconcileJobGraph, reconcile, reconcile, hcoll, hcoll']
    rw [hsame, hrec]
  · rw [happly, reconcile_settled hcoll hvalid hfinal hatt, ← hbuild]

/-- A failed root, a skipped chain and a Job that runs on completion. -/
def failureChain : List JobGraphNode :=
  [.numbered 3 .blocked [2] .allSucceeded, .numbered 1 .failed [] .allSucceeded,
   .numbered 2 .blocked [1] .allSucceeded, .numbered 4 .blocked [1, 3] .allCompleted]

theorem failureChain_fixed_point :
    ∃ decision, reconcileJobGraph failureChain = .ok decision ∧
      (decision.jobTransitions.map (·.jobId)).Nodup ∧
      reconcileJobGraph (applyTransitions failureChain decision.jobTransitions) =
        .ok { decision with jobTransitions := [] } := by
  obtain ⟨decision, hrec, -, -, -, hnodup, hreplay⟩ :=
    reconcileJobGraph_fixed_point failureChain (by decide +kernel)
  exact ⟨decision, hrec, hnodup, hreplay⟩

/-! ## No Attempt gets stuck -/

/-- A state some party other than the reconciler can still move. -/
def isActive : JobState → Bool
  | .ready | .leased | .running | .cancelling => true
  | _ => false

theorem isActive_or (state : JobState) :
    state = .blocked ∨ isActive state = true ∨ state.isTerminal = true := by
  cases state <;> simp [isActive, JobState.isTerminal]

theorem dependencyOutcome_ne_pending {state : JobState} (h : state.isTerminal = true) :
    dependencyOutcome state ≠ .pending := by
  cases state <;> simp_all [JobState.isTerminal, dependencyOutcome]

/-- A settlement without active Jobs has no blocked Job: the least blocked Job
    would have a complete non-empty fan-in. -/
theorem IsSettlement.not_blocked (hwf : WellFormed graph) (h : IsSettlement graph.rows final)
    (hidle : ∀ node ∈ graph.rows, isActive (final node.id) = false) :
    ∀ node ∈ graph.rows, final node.id ≠ .blocked := by
  intro node hnode hblk
  obtain ⟨id, ⟨m, hm, hid, hmb⟩, hmin⟩ := exists_minimal_of_acc (hwf.acyclic node hnode)
    (P := fun id => ∃ m ∈ graph.rows, m.id = id ∧ final m.id = .blocked)
    ⟨node, hnode, rfl, hblk⟩
  have hstart := h.blocked m hm hmb
  have hterminal : ∀ dependency ∈ m.dependencies, (final dependency).isTerminal = true := by
    intro dependency hdep
    obtain ⟨predecessor, hpred, rfl⟩ := hwf.closed m hm dependency hdep
    rcases isActive_or (final predecessor.id) with hb | ha | ht
    · exact absurd ⟨predecessor, hpred, rfl, hb⟩ (hmin _ ⟨m, hm, hid, hdep⟩)
    · rw [hidle predecessor hpred] at ha
      cases ha
    · exact ht
  have hne : m.outcomes final ≠ [] := by
    simpa [JobGraphNode.outcomes] using hwf.rooted m hm hstart
  have hpend : ∀ outcome ∈ m.outcomes final, outcome ≠ .pending := by
    intro outcome hout
    obtain ⟨dependency, hdep, rfl⟩ := mem_map.mp hout
    exact dependencyOutcome_ne_pending (hterminal dependency hdep)
  have hdecd := h.decides m hm hstart
  rw [hmb, JobGraphNode.decided, eq_comm, decisionState_eq_blocked] at hdecd
  exact m.dependencyPolicy.decide_ne_blocked hne hpend hdecd

theorem deriveAttemptState_running {states : List JobState} {cancelled : Bool} :
    deriveAttemptState states cancelled = .running ↔ ∃ state ∈ states, state.isTerminal = false := by
  unfold deriveAttemptState
  cases hall : states.all (·.isTerminal) with
  | true =>
    have hterminal : ∀ state ∈ states, state.isTerminal = true := by simpa using hall
    constructor
    · intro h
      simp only [Bool.not_true, Bool.false_eq_true, if_false] at h
      split_ifs at h
    · rintro ⟨state, hmem, hstate⟩
      rw [hterminal state hmem] at hstate
      cases hstate
  | false =>
    have hsome : ∃ state ∈ states, state.isTerminal = false := by simpa using hall
    simpa using hsome

/-- The terminal classification of an Attempt without cancellation intent. -/
theorem deriveAttemptState_terminal {states : List JobState}
    (hall : ∀ state ∈ states, state.isTerminal = true) : deriveAttemptState states false =
      if .failed ∈ states then .failed else if .cancelled ∈ states then .cancelled
      else .succeeded := by
  have hall' : states.all (·.isTerminal) = true := by simpa using hall
  simp [deriveAttemptState, hall']

/-- No Attempt gets stuck: a running Attempt has a Job that can still move, and
    an Attempt is terminal exactly when all its Jobs are, classified by the
    failed and cancelled ones. -/
theorem reconcileJobGraph_not_stuck (nodes : List JobGraphNode) (decision : OrchestrationDecision)
    (h : reconcileJobGraph nodes = .ok decision) :
    let settled := (applyTransitions nodes decision.jobTransitions).map (·.state)
    (decision.attemptState = .running → ∃ state ∈ settled, isActive state = true) ∧
    (decision.attemptState.isTerminal = true ↔ ∀ state ∈ settled, state.isTerminal = true) ∧
    ((∀ state ∈ settled, state.isTerminal = true) →
      (decision.attemptState = .failed ↔ .failed ∈ settled) ∧
      (decision.attemptState = .cancelled ↔ .failed ∉ settled ∧ .cancelled ∈ settled) ∧
      (decision.attemptState = .succeeded ↔ .failed ∉ settled ∧ .cancelled ∉ settled)) := by
  intro settled
  obtain ⟨graph, hcoll, hvalid⟩ :=
    validateJobGraph_eq_ok.mp (validateJobGraph_of_reconcile h)
  obtain ⟨final, decision', hrec, hfinal, happly, -, -, hatt, -⟩ :=
    reconcile_spec hcoll hvalid
  obtain rfl : decision' = decision := Except.ok.inj (hrec.symm.trans h)
  have hwf := WellFormed.of_validateGraph hvalid
  have hmem : ∀ state, state ∈ settled ↔ state ∈ graph.rows.map fun node => final node.id := by
    intro state
    have hperm := ((collectGraph_eq_ok hcoll).2.2.map fun node => final node.id).mem_iff
      (a := state)
    rw [hperm]
    simp only [settled, happly, nodesWithStates, map_map, Function.comp_def]
  have hrunning : decision'.attemptState = .running ↔ ∃ state ∈ settled, state.isTerminal = false := by
    rw [hatt, deriveAttemptState_running]
    simp only [hmem]
  have hterminal : (∀ state ∈ settled, state.isTerminal = true) → decision'.attemptState =
      if .failed ∈ settled then .failed else if .cancelled ∈ settled then .cancelled
      else .succeeded := by
    intro hall
    simp only [hmem] at hall ⊢
    rw [hatt, deriveAttemptState_terminal hall]
  refine ⟨?_, ?_, ?_⟩
  · intro hrun
    by_contra hidle
    obtain ⟨state, hstate, hnot⟩ := hrunning.mp hrun
    obtain ⟨node, hnode, rfl⟩ := mem_map.mp ((hmem state).mp hstate)
    have hall : ∀ node ∈ graph.rows, isActive (final node.id) = false := by
      intro node hnode
      by_contra hact
      exact hidle ⟨_, (hmem _).mpr (mem_map_of_mem hnode), by simpa using hact⟩
    rcases isActive_or (final node.id) with hb | ha | ht
    · exact hfinal.not_blocked hwf hall node hnode hb
    · rw [hall node hnode] at ha
      cases ha
    · rw [ht] at hnot
      cases hnot
  · constructor
    · intro hterm
      by_contra hsome
      push Not at hsome
      obtain ⟨state, hstate, hnot⟩ := hsome
      rw [hrunning.mpr ⟨state, hstate, by simpa using hnot⟩] at hterm
      cases hterm
    · intro hall
      rw [hterminal hall]
      split
      · rfl
      · split <;> rfl
  · intro hall
    rw [hterminal hall]
    by_cases hf : JobState.failed ∈ settled
    · simp [hf]
    · by_cases hc : JobState.cancelled ∈ settled <;> simp [hf, hc]

theorem failureChain_not_stuck : ∃ decision, reconcileJobGraph failureChain = .ok decision ∧
      decision.attemptState = .running ∧
      ∃ state ∈ (applyTransitions failureChain decision.jobTransitions).map (·.state),
        isActive state = true :=
  ⟨⟨[⟨⟨2⟩, .skipped⟩, ⟨⟨3⟩, .skipped⟩, ⟨⟨4⟩, .ready⟩], .running, .running⟩,
    by decide +kernel, rfl,
    (reconcileJobGraph_not_stuck failureChain _ (by decide +kernel)).1 rfl⟩

end OctaCity.Orchestrator
