/-
  OctaCity.Orchestrator.Decision

  What a reconciliation and a cancellation decided, in the form their callers
  store it: one transition out of `Blocked` for each Job a reconciliation
  moved, one `afterRequest` for each Job a cancellation found untargeted, and
  a terminal Attempt only over terminal Jobs.
-/
import OctaCity.Orchestrator.Cancellation

namespace OctaCity.Orchestrator

open Domain Job Lib List Pipeline

/-- A decision over the nodes of one Attempt and the states it leads to. -/
structure Decides (nodes : List JobGraphNode) (cancelled : Bool)
    (decision : OrchestrationDecision) (final : JobId → JobState) : Prop where
  distinct : (nodes.map (·.id)).Nodup
  settles : IsSettlement nodes final
  mem_iff : ∀ selected, selected ∈ decision.jobTransitions ↔
    ∃ node ∈ nodes, selected = ⟨node.id, final node.id⟩ ∧ node.state = .blocked ∧
      final node.id ≠ .blocked
  nodup : (decision.jobTransitions.map (·.jobId)).Nodup
  attempt : ∃ states : List JobState, (∀ state, state ∈ states ↔ ∃ node ∈ nodes,
    final node.id = state) ∧ decision.attemptState = deriveAttemptState states cancelled
  build : decision.buildState = deriveBuildState decision.attemptState

variable {nodes nodes' : List JobGraphNode} {cancelled : Bool} {buildState : BuildState}
  {attemptState : AttemptState} {jobs : List (JobId × JobState)}

/-- Both reconcilers settle the graph; cancellation only checks it before. -/
theorem reconcile_eq_ok
    {decision : OrchestrationDecision} (h : reconcile nodes cancelled = .ok decision) :
    ∃ final, Decides nodes cancelled decision final := by
  obtain ⟨graph, hcoll, h⟩ := bind_eq_ok.mp h
  obtain ⟨_, hvalid, h⟩ := bind_eq_ok.mp h
  have hperm := (collectGraph_eq_ok hcoll).2.2
  obtain ⟨final, jobTransitions, hset, hfinal, hprog⟩ :=
    settle_spec (WellFormed.of_validateGraph hvalid)
  split at h
  · cases h
  · rw [hset] at h
    cases h
    have hsort := perm_insertionSort
      (fun a b : JobGraphTransition => a.jobId ≤ b.jobId) jobTransitions
    have hdist := (hperm.map JobGraphNode.id).nodup_iff.mp graph.keys_nodup
    refine ⟨final, ⟨hdist, hfinal.perm hperm.symm, ?_, ?_, ?_, rfl⟩⟩
    · intro selected
      rw [hsort.mem_iff, hprog.mem_iff]
      constructor
      · rintro ⟨node, hnode, hsel, hblk, hne⟩
        rw [graph.stateOf_of_mem hnode] at hblk
        exact ⟨node, hperm.mem_iff.mp hnode, hsel, hblk, hne⟩
      · rintro ⟨node, hnode, hsel, hblk, hne⟩
        have hmem := hperm.mem_iff.mpr hnode
        exact ⟨node, hmem, hsel, by rw [graph.stateOf_of_mem hmem, hblk], hne⟩
    · exact (hsort.map (·.jobId)).nodup_iff.mpr hprog.nodup
    · refine ⟨(graph.withStates final).rows.map (·.state), ?_, rfl⟩
      intro state
      rw [JobGraph.withStates_rows, map_map, mem_map]
      constructor
      · rintro ⟨node, hnode, rfl⟩
        exact ⟨node, hperm.mem_iff.mp hnode, rfl⟩
      · rintro ⟨node, hnode, rfl⟩
        exact ⟨node, hperm.mem_iff.mpr hnode, rfl⟩

namespace Decides

variable {nodes : List JobGraphNode} {cancelled : Bool} {decision : OrchestrationDecision}
  {final : JobId → JobState}

/-- A blocked Job becomes ready or is skipped. -/
theorem ready_or_skipped (h : Decides nodes cancelled decision final)
    {selected : JobGraphTransition} (hsel : selected ∈ decision.jobTransitions) :
    selected.state = .ready ∨ selected.state = .skipped := by
  obtain ⟨node, hnode, rfl, hblk, hne⟩ := (h.mem_iff selected).mp hsel
  have hdecd := h.settles.decides node hnode hblk
  rw [JobGraphNode.decided] at hdecd
  simp only
  rw [hdecd] at hne ⊢
  cases hd : node.dependencyPolicy.decide (node.outcomes final) with
  | blocked =>
    rw [hd] at hne
    exact absurd rfl hne
  | ready => exact .inl rfl
  | skipped => exact .inr rfl

variable {node : JobGraphNode}

theorem terminal (h : Decides nodes cancelled decision final)
    (hterm : decision.attemptState.isTerminal = true)
    (hnode : node ∈ nodes) : (final node.id).isTerminal = true := by
  obtain ⟨states, hstates, hatt⟩ := h.attempt
  by_contra hopen
  have hrunning : deriveAttemptState states cancelled = .running :=
    deriveAttemptState_running.mpr
      ⟨final node.id, (hstates _).mpr ⟨node, hnode, rfl⟩, by simpa using hopen⟩
  rw [hatt, hrunning] at hterm
  cases hterm

/-- Reconciliation after cancellation never fails the Build. -/
theorem not_failed (h : Decides nodes true decision final) : decision.buildState ≠ .failed := by
  obtain ⟨states, -, hatt⟩ := h.attempt
  rw [h.build, hatt, deriveAttemptState]
  cases states.all (·.isTerminal) <;> simp [deriveBuildState]

/-- The transitions of one Job: its own, when it leaves `Blocked`. -/
theorem transition_iff (h : Decides nodes cancelled decision final)
    (hnode : node ∈ nodes) (state : JobState) : ⟨node.id, state⟩ ∈ decision.jobTransitions ↔
      node.state = .blocked ∧ final node.id = state ∧ state ≠ .blocked := by
  rw [h.mem_iff]
  constructor
  · rintro ⟨other, hother, heq, hblk, hne⟩
    obtain ⟨hid, hstate⟩ := JobGraphTransition.mk.inj heq
    obtain rfl : node = other := inj_on_of_nodup_map h.distinct hnode hother hid
    exact ⟨hblk, hstate.symm, by rw [hstate]; exact hne⟩
  · rintro ⟨hblk, rfl, hne⟩
    exact ⟨node, hnode, rfl, hblk, hne⟩

end Decides

variable {nodes : List JobGraphNode} {cancelled : Bool} {decision : OrchestrationDecision}
  {final : JobId → JobState}

/-- Only open Jobs keep an Attempt running. -/
theorem Decides.open (h : Decides nodes cancelled decision final)
    (hopen : decision.attemptState.isTerminal = false) :
    ∃ node ∈ nodes, (final node.id).isTerminal = false := by
  obtain ⟨states, hstates, hatt⟩ := h.attempt
  have hrunning : decision.attemptState = .running := by
    rw [hatt, deriveAttemptState] at hopen ⊢
    revert hopen
    cases states.all (·.isTerminal) <;> cases cancelled <;>
      cases states.any (· = .failed) <;> cases states.any (· = .cancelled) <;>
      simp [AttemptState.isTerminal]
  rw [hatt] at hrunning
  obtain ⟨state, hstate, hnot⟩ := deriveAttemptState_running.mp hrunning
  obtain ⟨node, hnode, rfl⟩ := (hstates state).mp hstate
  exact ⟨node, hnode, by simpa using hnot⟩

/-! ## Valid graphs -/

theorem validateJobGraph_perm (hp : nodes'.Perm nodes)
    (h : validateJobGraph nodes = .ok ()) : validateJobGraph nodes' = .ok () := by
  obtain ⟨graph, hcoll, hvalid⟩ := validateJobGraph_eq_ok.mp h
  exact validateJobGraph_eq_ok.mpr ⟨graph, collectGraph_perm hp hcoll, hvalid⟩

theorem validateJobGraph_ne_nil (h : validateJobGraph nodes = .ok ()) : nodes ≠ [] := by
  obtain ⟨graph, hcoll, -⟩ := validateJobGraph_eq_ok.mp h
  obtain ⟨-, hne, hperm⟩ := collectGraph_eq_ok hcoll
  rintro rfl
  rw [hperm.eq_nil] at hne
  cases hne

/-- The same node in another state, which is blocked only if it was. -/
def JobGraphNode.MovesTo (node node' : JobGraphNode) : Prop :=
  node' = { node with state := node'.state } ∧ (node'.state = .blocked → node.state = .blocked)

/-- A valid graph stays valid while its Jobs move on. -/
theorem validateJobGraph_moves (hmoves : List.Forall₂ JobGraphNode.MovesTo nodes nodes')
    (h : validateJobGraph nodes = .ok ()) : validateJobGraph nodes' = .ok () := by
  obtain ⟨graph, hcoll, hvalid⟩ := validateJobGraph_eq_ok.mp h
  have hperm := (collectGraph_eq_ok hcoll).2.2
  have hids : nodes'.map (·.id) = nodes.map (·.id) := by
    clear hcoll hperm h
    induction hmoves with
    | nil => rfl
    | cons hnode _ ih => rw [map_cons, map_cons, ih, hnode.1]
  have hdist : (nodes'.map (·.id)).Nodup := by
    rw [hids]
    exact (hperm.map JobGraphNode.id).nodup_iff.mp graph.keys_nodup
  have hstate : ∀ node' ∈ nodes', statesOf nodes' node'.id = node'.state := by
    intro node' hnode'
    rw [statesOf, (find?_key_eq_some hdist).mpr ⟨hnode', rfl⟩]
  have hstor : ∀ {l l' : List JobGraphNode}, List.Forall₂ JobGraphNode.MovesTo l l' →
      l' ⊆ nodes' → nodesWithStates l (statesOf nodes') = l' := by
    intro l l' hl
    induction hl with
    | nil => exact fun _ => rfl
    | @cons node node' rest rest' hnode _ ih =>
      intro hsub
      have hid : node'.id = node.id := by rw [hnode.1]
      have hhead : statesOf nodes' node.id = node'.state := by
        rw [← hid, hstate node' (hsub (mem_cons_self ..))]
      rw [nodesWithStates, map_cons, hhead, ← hnode.1]
      exact congrArg _ (ih fun x hx => hsub (mem_cons_of_mem _ hx))
  rw [← hstor hmoves (List.Subset.refl _)]
  refine validateJobGraph_eq_ok.mpr ⟨_, collectGraph_withStates hcoll _,
    JobGraph.validateGraph_withStates (fun node hnode hblk => ?_) hvalid⟩
  obtain ⟨node', hnode', hmove⟩ := forall₂_exists_right hmoves (hperm.mem_iff.mp hnode)
  have hid : node'.id = node.id := by rw [hmove.1]
  rw [← hid, hstate node' hnode'] at hblk
  exact hmove.2 hblk

/-- A valid graph is always reconciled; cancellation has to have reached its Jobs. -/
theorem reconcile_isOk (h : validateJobGraph nodes = .ok ())
    (htgtd : cancelled = true → ∀ node ∈ nodes, isUntargeted node.state = false) :
    ∃ decision, reconcile nodes cancelled = .ok decision := by
  obtain ⟨graph, hcoll, hvalid⟩ := validateJobGraph_eq_ok.mp h
  have hperm := (collectGraph_eq_ok hcoll).2.2
  obtain ⟨final, jobTransitions, hset, -, -⟩ := settle_spec (WellFormed.of_validateGraph hvalid)
  have hnone : (if cancelled then graph.rows.find? (fun node => isUntargeted node.state)
      else none) = none := by
    cases cancelled with
    | false => rfl
    | true =>
      refine List.find?_eq_none.mpr fun node hnode => ?_
      rw [htgtd rfl node (hperm.mem_iff.mp hnode)]
      exact Bool.false_ne_true
  let attemptState :=
    deriveAttemptState ((graph.withStates final).rows.map (·.state)) cancelled
  refine ⟨⟨jobTransitions.insertionSort (·.jobId ≤ ·.jobId), attemptState,
    deriveBuildState attemptState⟩, ?_⟩
  refine bind_eq_ok.mpr ⟨graph, hcoll, bind_eq_ok.mpr ⟨(), hvalid, ?_⟩⟩
  rw [hnone]
  exact bind_eq_ok.mpr ⟨_, hset, rfl⟩

/-! ## Cancellation -/

/-- The aggregate state a cancellation leaves. -/
def cancellationPending (jobs : List (JobId × JobState)) : Prop :=
  ∃ job ∈ jobs, afterRequest job.2 = .cancelling

/-- A cancellation of distinct Jobs of an active Attempt is always decided. -/
theorem cancelJobStates_isOk (hbuild : buildState.isActive = true)
    (hatt : attemptState.isActive = true) (hne : jobs ≠ []) (hnodup : (jobs.map (·.1)).Nodup) :
    ∃ decision, cancelJobStates buildState attemptState jobs = .ok decision := by
  obtain ⟨states, hstates⟩ := Table.insertAll_isOk
    (fun job : JobId × JobState => CancellationError.duplicateJob job.1) jobs
    (Table.empty : JobStates) (by rw [Table.empty, append_nil]; exact hnodup)
  have hrows : states.rows.Perm jobs := by
    have := Table.insertAll_eq_ok hstates
    rwa [Table.empty, append_nil] at this
  have hnonempty : states.rows.isEmpty = false := by
    rw [isEmpty_eq_false_iff, ← length_pos_iff, hrows.length_eq, length_pos_iff]
    exact hne
  obtain ⟨reached, hrun, -, -⟩ := Propagation.foldlM_visit states.rows [] ⟨states, []⟩ rfl
  let pending := reached.states.rows.any (·.2 = .cancelling)
  refine ⟨⟨reached.transitions, if pending then .running else .cancelled,
    if pending then .running else .cancelled⟩, ?_⟩
  rw [cancelJobStates, hbuild, hatt]
  refine bind_eq_ok.mpr ⟨states, hstates, ?_⟩
  rw [hnonempty]
  exact bind_eq_ok.mpr ⟨reached, hrun, rfl⟩

/-- What a decided cancellation was about and what it moves. -/
theorem cancelJobStates_eq_ok {decision : CancellationDecision}
    (h : cancelJobStates buildState attemptState jobs = .ok decision) :
    buildState.isActive = true ∧ attemptState.isActive = true ∧
      (jobs.map (·.1)).Nodup ∧ decision.transitions.Perm (jobs.filterMap cancellationOf) ∧
      (decision.attemptState = .running ∧ decision.buildState = .running ∧
          cancellationPending jobs ∨
        decision.attemptState = .cancelled ∧ decision.buildState = .cancelled ∧
          ¬ cancellationPending jobs) := by
  unfold cancelJobStates at h
  rw [guard_eq_ok, guard_eq_ok] at h
  obtain ⟨hbuild, hatt, h⟩ := h
  obtain ⟨states, hstates, h⟩ := bind_eq_ok.mp h
  rw [guard_eq_ok] at h
  obtain ⟨propagation, hrun, h⟩ := bind_eq_ok.mp h.2
  cases h
  have hrows : states.rows.Perm jobs := by
    have := Table.insertAll_eq_ok hstates
    rwa [Table.empty, append_nil] at this
  obtain ⟨reached, hrun', hreach, htranss⟩ :=
    Propagation.foldlM_visit states.rows [] ⟨states, []⟩ rfl
  obtain rfl : reached = propagation := Except.ok.inj (hrun'.symm.trans hrun)
  have hpend : reached.states.rows.any (·.2 = .cancelling) = true ↔ cancellationPending jobs := by
    rw [hreach, nil_append, any_map, any_eq_true, cancellationPending]
    simp only [hrows.mem_iff, Function.comp_apply, decide_eq_true_eq]
  refine ⟨by simpa using hbuild, by simpa using hatt,
    (hrows.map Prod.fst).nodup_iff.mp states.keys_nodup, ?_, ?_⟩
  · rw [htranss, nil_append]
    exact hrows.filterMap _
  · by_cases hcing : cancellationPending jobs
    · simp [hpend.mpr hcing, hcing]
    · have hnone : reached.states.rows.any (·.2 = .cancelling) = false := by
        rw [← Bool.not_eq_true, hpend]
        exact hcing
      simp [hnone, hcing]

end OctaCity.Orchestrator
