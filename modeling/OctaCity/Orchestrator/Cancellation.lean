/-
  OctaCity.Orchestrator.Cancellation

  Durable cancellation of one active Attempt (octacity-server-orchestrator,
  `cancellation.rs`) and what reconciliation says about it afterwards.
  Cancellation leaves no Job that the reconciler or an Agent could still start:
  every Job is `Cancelling` or terminal.
-/
import OctaCity.Orchestrator.Outcome

namespace OctaCity.Orchestrator

open Domain Job Lib List

/-- One Job transition selected while applying a durable Build cancellation. -/
structure CancellationTransition where
  jobId : JobId
  state : JobState

structure CancellationDecision where
  transitions : List CancellationTransition
  attemptState : AttemptState
  buildState : BuildState

/-- Invalid persisted facts that prevent safe cancellation propagation. -/
inductive CancellationError
  | buildNotActive
  | attemptNotActive
  | emptyAttempt
  | duplicateJob (jobId : JobId)
  | invalidTransition (jobId : JobId)

def BuildState.isActive : BuildState → Bool
  | .queued | .running => true
  | _ => false

def AttemptState.isActive : AttemptState → Bool
  | .created | .running => true
  | _ => false

abbrev JobStates := Table (Prod.fst : JobId × JobState → JobId)

def setJobState (jobId : JobId) (state : JobState) (job : JobId × JobState) : JobId × JobState :=
  if job.1 = jobId then (jobId, state) else job

theorem setJobState_fst (jobId : JobId) (state : JobState) (job : JobId × JobState) :
    (setJobState jobId state job).1 = job.1 := by
  unfold setJobState
  split
  · rename_i h
    exact h.symm
  · rfl

/-- The state cancellation requests for one Job, when it has to move. -/
def cancelledState (job : JobId × JobState) : Except CancellationError (Option JobState) :=
  match job.2 with
  | .blocked | .ready | .leased | .running =>
    match job.2.transition .cancellationRequested with
    | .ok next => .ok (some next)
    | .error _ => .error (.invalidTransition job.1)
  | .cancelling | .succeeded | .failed | .cancelled | .skipped => .ok none

/-- The mutable locals of the propagation loop. -/
structure Propagation where
  states : JobStates
  transitions : List CancellationTransition

def Propagation.visit (propagation : Propagation) (job : JobId × JobState) :
    Except CancellationError Propagation := do
  match ← cancelledState job with
  | none => .ok propagation
  | some next =>
    .ok { states := propagation.states.mapRows (setJobState job.1 next) (setJobState_fst job.1 next)
          transitions := propagation.transitions ++ [⟨job.1, next⟩] }

/-- Propagates durable cancellation intent through one complete active Attempt. -/
def cancelJobStates (buildState : BuildState) (attemptState : AttemptState)
    (jobs : List (JobId × JobState)) : Except CancellationError CancellationDecision := do
  if !buildState.isActive then .error .buildNotActive
  else if !attemptState.isActive then .error .attemptNotActive
  else
    let states ← (Table.empty : JobStates).insertAll (fun job => .duplicateJob job.1) jobs
    if states.rows.isEmpty then .error .emptyAttempt
    else
      let propagation ← states.rows.foldlM Propagation.visit ⟨states, []⟩
      let cancellationPending := propagation.states.rows.any (·.2 = .cancelling)
      .ok { transitions := propagation.transitions
            attemptState := if cancellationPending then .running else .cancelled
            buildState := if cancellationPending then .running else .cancelled }

/-- The persisted rows after a cancellation decision was stored. -/
def storeCancellation (nodes : List JobGraphNode) (transitions : List CancellationTransition) :
    List JobGraphNode :=
  applyTransitions nodes (transitions.map fun selected => ⟨selected.jobId, selected.state⟩)

/-! ## The propagation loop -/

/-- The state of a Job after cancellation was propagated. -/
def afterRequest : JobState → JobState
  | .blocked | .ready => .cancelled
  | .leased | .running => .cancelling
  | state => state

def cancellationOf (job : JobId × JobState) : Option CancellationTransition :=
  if isUntargeted job.2 then some ⟨job.1, afterRequest job.2⟩ else none

theorem cancelledState_eq (job : JobId × JobState) :
    cancelledState job = .ok (if isUntargeted job.2 then some (afterRequest job.2) else none) := by
  obtain ⟨id, state⟩ := job
  cases state <;> rfl

theorem afterRequest_of_targeted {state : JobState} (h : isUntargeted state = false) :
    afterRequest state = state := by
  cases state <;> first | rfl | cases h

theorem isUntargeted_afterRequest (state : JobState) : isUntargeted (afterRequest state) = false := by
  cases state <;> rfl

/-- Updating the row of one key leaves the other rows as they are. -/
theorem map_setJobState {before after : List (JobId × JobState)} {job : JobId × JobState}
    (next : JobState) (hnodup : ((before ++ job :: after).map Prod.fst).Nodup) :
    (before ++ job :: after).map (setJobState job.1 next) = before ++ (job.1, next) :: after := by
  rw [map_append, map_cons, nodup_append, nodup_cons] at hnodup
  obtain ⟨-, ⟨hafter, -⟩, hbef⟩ := hnodup
  have hkeep : ∀ jobs : List (JobId × JobState), (∀ other ∈ jobs, other.1 ≠ job.1) →
      jobs.map (setJobState job.1 next) = jobs := by
    intro jobs hjobs
    conv_rhs => rw [← map_id jobs]
    apply map_congr_left
    intro other hother
    rw [setJobState, if_neg (hjobs other hother)]
    rfl
  rw [map_append, map_cons, hkeep before ?_, hkeep after ?_, setJobState, if_pos rfl]
  · intro other hother heq
    exact hafter (heq ▸ mem_map_of_mem hother)
  · intro other hother
    exact hbef _ (mem_map_of_mem hother) _ (mem_cons_self ..)

/-- The loop moves every row it passes and records exactly the moved ones. -/
theorem Propagation.foldlM_visit (rest : List (JobId × JobState)) :
    ∀ (done : List (JobId × JobState)) (propagation : Propagation),
      propagation.states.rows = done ++ rest →
      ∃ reached, rest.foldlM Propagation.visit propagation = .ok reached ∧
        reached.states.rows = done ++ rest.map (fun job => (job.1, afterRequest job.2)) ∧
        reached.transitions = propagation.transitions ++ rest.filterMap cancellationOf := by
  induction rest with
  | nil =>
    intro done propagation hrows
    exact ⟨propagation, rfl, hrows, (append_nil _).symm⟩
  | cons job rest ih =>
    intro done propagation hrows
    have hnodup := propagation.states.keys_nodup
    rw [hrows] at hnodup
    cases htgt : isUntargeted job.2 with
    | true =>
      obtain ⟨reached, hrun, hstates, htranss⟩ := ih (done ++ [(job.1, afterRequest job.2)])
        ⟨propagation.states.mapRows (setJobState job.1 (afterRequest job.2))
            (setJobState_fst job.1 (afterRequest job.2)),
          propagation.transitions ++ [⟨job.1, afterRequest job.2⟩]⟩
        (by rw [Table.mapRows_rows, hrows, map_setJobState _ hnodup, append_assoc]
            rfl)
      refine ⟨reached, ?_, ?_, ?_⟩
      · rw [foldlM_cons, Propagation.visit, cancelledState_eq, htgt]
        exact hrun
      · rw [hstates, append_assoc]
        rfl
      · rw [htranss, filterMap_cons, cancellationOf, htgt, append_assoc]
        rfl
    | false =>
      obtain ⟨reached, hrun, hstates, htranss⟩ := ih (done ++ [job]) propagation
        (by rw [hrows, append_assoc]; rfl)
      refine ⟨reached, ?_, ?_, ?_⟩
      · rw [foldlM_cons, Propagation.visit, cancelledState_eq, htgt]
        exact hrun
      · rw [hstates, append_assoc, map_cons, afterRequest_of_targeted htgt]
        rfl
      · rw [htranss, filterMap_cons, cancellationOf, htgt]
        rfl

/-! ## The decision -/

variable {nodes : List JobGraphNode} {graph : JobGraph}

/-- Cancelling an accepted active Attempt stores `afterRequest` for every Job. -/
theorem cancelJobStates_spec (hcoll : collectGraph nodes = .ok graph) {buildState : BuildState}
    {attemptState : AttemptState} (hbuild : buildState.isActive = true)
    (hatt : attemptState.isActive = true) : ∃ decision,
      cancelJobStates buildState attemptState (nodes.map fun node => (node.id, node.state)) =
        .ok decision ∧ storeCancellation nodes decision.transitions =
        nodesWithStates nodes (fun id => afterRequest (graph.stateOf id)) ∧ decision.attemptState =
        (if ∃ node ∈ nodes, afterRequest node.state = .cancelling then .running else .cancelled) ∧
      decision.buildState =
        (if ∃ node ∈ nodes, afterRequest node.state = .cancelling then .running else .cancelled) := by
  obtain ⟨-, hne, hperm⟩ := collectGraph_eq_ok hcoll
  have hkeys : (nodes.map (·.id)).Nodup :=
    (hperm.map JobGraphNode.id).nodup_iff.mp graph.keys_nodup
  obtain ⟨states, hstates⟩ := Table.insertAll_isOk
    (fun job : JobId × JobState => CancellationError.duplicateJob job.1)
    (nodes.map fun node => (node.id, node.state)) (Table.empty : JobStates)
    (by rw [Table.empty, append_nil, map_map]; exact hkeys)
  have hrows : states.rows.Perm (nodes.map fun node => (node.id, node.state)) := by
    have := Table.insertAll_eq_ok hstates
    rwa [Table.empty, append_nil] at this
  have hrow : ∀ job ∈ states.rows, ∃ node ∈ nodes, job = (node.id, node.state) := by
    intro job hjob
    obtain ⟨node, hnode, rfl⟩ := mem_map.mp (hrows.mem_iff.mp hjob)
    exact ⟨node, hnode, rfl⟩
  have hnonempty : states.rows.isEmpty = false := by
    rw [isEmpty_eq_false_iff, ← length_pos_iff, hrows.length_eq, length_map,
      ← hperm.length_eq, length_pos_iff]
    exact isEmpty_eq_false_iff.mp hne
  obtain ⟨reached, hrun, hreach, htranss⟩ :=
    Propagation.foldlM_visit states.rows [] ⟨states, []⟩ rfl
  have hpend : reached.states.rows.any (·.2 = .cancelling) = true ↔
      ∃ node ∈ nodes, afterRequest node.state = .cancelling := by
    rw [hreach, nil_append, any_map, any_eq_true]
    constructor
    · rintro ⟨job, hjob, hstate⟩
      obtain ⟨node, hnode, rfl⟩ := hrow job hjob
      exact ⟨node, hnode, of_decide_eq_true hstate⟩
    · rintro ⟨node, hnode, hstate⟩
      exact ⟨(node.id, node.state), hrows.mem_iff.mpr (mem_map_of_mem hnode),
        decide_eq_true hstate⟩
  refine ⟨⟨reached.transitions, _, _⟩, ?_, ?_, if_congr hpend rfl rfl, if_congr hpend rfl rfl⟩
  · rw [cancelJobStates, hbuild, hatt]
    refine bind_eq_ok.mpr ⟨states, hstates, ?_⟩
    rw [hnonempty]
    exact bind_eq_ok.mpr ⟨reached, hrun, rfl⟩
  · simp only [htranss, nil_append]
    apply map_congr_left
    intro node hnode
    simp only [graph.stateOf_of_mem (hperm.mem_iff.mpr hnode)]
    cases hfind : ((states.rows.filterMap cancellationOf).map fun selected =>
        (⟨selected.jobId, selected.state⟩ : JobGraphTransition)).find? (·.jobId = node.id) with
    | some selected =>
      have hid : selected.jobId = node.id := by simpa using List.find?_some hfind
      obtain ⟨moved, hmoved, rfl⟩ := mem_map.mp (mem_of_find?_eq_some hfind)
      obtain ⟨job, hjob, hof⟩ := mem_filterMap.mp hmoved
      obtain ⟨m, hm, rfl⟩ := hrow job hjob
      unfold cancellationOf at hof
      split at hof
      · cases hof
        rw [inj_on_of_nodup_map hkeys hm hnode hid]
      · cases hof
    | none =>
      have htgt : isUntargeted node.state = false := by
        by_contra hne
        rw [Bool.not_eq_false] at hne
        have hmem : (⟨node.id, afterRequest node.state⟩ : CancellationTransition) ∈
            states.rows.filterMap cancellationOf :=
          mem_filterMap.mpr ⟨(node.id, node.state),
            hrows.mem_iff.mpr (mem_map_of_mem hnode), by rw [cancellationOf, if_pos hne]⟩
        have := List.find?_eq_none.mp hfind _ (mem_map_of_mem hmem)
        simp at this
      rw [afterRequest_of_targeted htgt]

/-! ## Reconciliation after cancellation -/

theorem settle_of_no_blocked (h : ∀ node ∈ graph.rows, node.state ≠ .blocked) :
    settle graph [] = .ok (graph, []) := by
  have hnone : blockedJobs graph = [] := by
    rw [blockedJobs, filterMap_eq_nil_iff]
    intro node hnode
    rw [if_neg (h node hnode)]
  unfold settle
  split
  · rename_i heq
    rw [hnone] at heq
    cases heq
  · rename_i sweep heq
    rw [hnone] at heq
    cases heq
    rfl

/-- With every Job targeted the cancelled reconciliation moves nothing and
    waits exactly for the Jobs that are still cancelling. -/
theorem reconcileCancelledJobGraph_spec
    (hcoll : collectGraph nodes = .ok graph) (hvalid : validateGraph graph = .ok ())
    (htgtd : ∀ node ∈ nodes, isUntargeted node.state = false) {attemptState : AttemptState}
    (hatt : attemptState =
      if ∃ node ∈ nodes, node.state = .cancelling then .running else .cancelled) :
    reconcileCancelledJobGraph nodes = .ok ⟨[], attemptState, deriveBuildState attemptState⟩ := by
  have hperm := (collectGraph_eq_ok hcoll).2.2
  have hnone : graph.rows.find? (fun node => isUntargeted node.state) = none := by
    rw [List.find?_eq_none]
    intro node hnode
    rw [htgtd node (hperm.mem_iff.mp hnode)]
    decide
  have hset : settle graph [] = .ok (graph, []) := by
    apply settle_of_no_blocked
    intro node hnode hblk
    have := htgtd node (hperm.mem_iff.mp hnode)
    rw [hblk] at this
    cases this
  have hstate : deriveAttemptState (graph.rows.map (·.state)) true = attemptState := by
    rw [hatt]
    by_cases hpend : ∃ node ∈ nodes, node.state = .cancelling
    · obtain ⟨node, hnode, hcing⟩ := hpend
      have hopen : (graph.rows.map (·.state)).all (·.isTerminal) = false := by
        rw [all_eq_false]
        refine ⟨.cancelling, ?_, by decide⟩
        rw [← hcing]
        exact mem_map_of_mem (hperm.mem_iff.mpr hnode)
      rw [if_pos ⟨node, hnode, hcing⟩, deriveAttemptState, hopen]
      rfl
    · have hclos : (graph.rows.map (·.state)).all (·.isTerminal) = true := by
        rw [all_map, all_eq_true]
        intro node hnode
        have hmem := hperm.mem_iff.mp hnode
        have htgt := htgtd node hmem
        have hnot : node.state ≠ .cancelling := fun hc => hpend ⟨node, hmem, hc⟩
        simp only [Function.comp_apply]
        cases hs : node.state <;> simp_all [isUntargeted, JobState.isTerminal]
      rw [if_neg hpend, deriveAttemptState, hclos]
      rfl
  refine bind_eq_ok.mpr ⟨graph, hcoll, bind_eq_ok.mpr ⟨(), hvalid, ?_⟩⟩
  simp only [if_true, hnone]
  refine bind_eq_ok.mpr ⟨_, hset, ?_⟩
  simp only [hstate, insertionSort_nil]

/-! ## Late Job events -/

/-- One fact reported for one Job. -/
structure JobFact where
  jobId : JobId
  event : JobEvent

/-- Stores the state the Job state machine selects; `none` rejects the fact. -/
def recordFact (nodes : List JobGraphNode) (fact : JobFact) : Option (List JobGraphNode) := do
  let node ← nodes.find? (·.id = fact.jobId)
  match node.state.transition fact.event with
  | .ok state => some (storeOutcome nodes ⟨fact.jobId, state⟩)
  | .error _ => none

/-- A targeted Job stays targeted whatever is reported for it. -/
theorem isUntargeted_transition {state next : JobState} {event : JobEvent}
    (htgt : isUntargeted state = false) (h : state.transition event = .ok next) :
    isUntargeted next = false := by
  cases state <;> cases htgt <;> cases event <;> cases h <;> rfl

/-- One accepted fact keeps every Job targeted. -/
theorem recordFact_targeted {reached : List JobGraphNode} {states : JobId → JobState}
    {fact : JobFact} (htgt : ∀ id, isUntargeted (states id) = false)
    (h : recordFact (nodesWithStates nodes states) fact = some reached) :
    ∃ states', reached = nodesWithStates nodes states' ∧
      ∀ id, isUntargeted (states' id) = false := by
  obtain ⟨node, hfind, h⟩ := Option.bind_eq_some_iff.mp h
  split at h
  · rename_i state hstate
    cases h
    obtain ⟨m, -, rfl⟩ := mem_map.mp (mem_of_find?_eq_some hfind)
    refine ⟨_, storeOutcome_withStates nodes states _, ?_⟩
    intro id
    by_cases hid : id = fact.jobId
    · rw [hid, storeState, Function.update_self]
      exact isUntargeted_transition (htgt m.id) hstate
    · rw [storeState, Function.update_of_ne hid]
      exact htgt id
  · cases h

theorem foldlM_recordFact_targeted (facts : List JobFact) :
    ∀ {reached : List JobGraphNode} {states : JobId → JobState},
      (∀ id, isUntargeted (states id) = false) →
      facts.foldlM recordFact (nodesWithStates nodes states) = some reached →
      ∃ states', reached = nodesWithStates nodes states' ∧
        ∀ id, isUntargeted (states' id) = false := by
  induction facts with
  | nil =>
    intro reached states htgt h
    cases h
    exact ⟨states, rfl, htgt⟩
  | cons fact rest ih =>
    intro reached states htgt h
    rw [foldlM_cons] at h
    obtain ⟨mid, hmid, h⟩ := Option.bind_eq_some_iff.mp h
    obtain ⟨states', rfl, htgt'⟩ := recordFact_targeted htgt hmid
    exact ih htgt' h

/-- Cancellation is final: after it no reported fact starts a Job again, and
    reconciliation moves nothing and waits for the cancelling Jobs only. -/
theorem cancelJobStates_final (nodes : List JobGraphNode) (buildState : BuildState)
    (attemptState : AttemptState) (hacc : validateJobGraph nodes = .ok ())
    (hbuild : buildState.isActive = true) (hatt : attemptState.isActive = true) : ∃ decision,
      cancelJobStates buildState attemptState (nodes.map fun node => (node.id, node.state)) =
        .ok decision ∧ reconcileCancelledJobGraph (storeCancellation nodes decision.transitions) =
        .ok ⟨[], decision.attemptState, decision.buildState⟩ ∧
      ∀ (facts : List JobFact) (reached : List JobGraphNode),
        facts.foldlM recordFact (storeCancellation nodes decision.transitions) = some reached →
        ∃ current, reconcileCancelledJobGraph reached = .ok current ∧ current.jobTransitions = [] ∧
          current.attemptState =
            (if ∃ node ∈ reached, node.state = .cancelling then .running else .cancelled) ∧
          current.buildState =
            (if ∃ node ∈ reached, node.state = .cancelling then .running else .cancelled) ∧
          ∀ node ∈ reached, node.state = .cancelling ∨ node.state.isTerminal = true := by
  obtain ⟨graph, hcoll, hvalid⟩ := validateJobGraph_eq_ok.mp hacc
  obtain ⟨decision, hcancel, hstore, hatt', hbuild'⟩ :=
    cancelJobStates_spec hcoll hbuild hatt
  -- What holds of every rows whose Jobs are all targeted.
  have htgtd : ∀ states : JobId → JobState, (∀ id, isUntargeted (states id) = false) →
      reconcileCancelledJobGraph (nodesWithStates nodes states) = .ok
        ⟨[], if ∃ node ∈ nodesWithStates nodes states, node.state = .cancelling
              then .running else .cancelled,
          if ∃ node ∈ nodesWithStates nodes states, node.state = .cancelling
              then .running else .cancelled⟩ := by
    intro states htgt
    have hvalid' : validateGraph (graph.withStates states) = .ok () := by
      refine JobGraph.validateGraph_withStates ?_ hvalid
      intro node _ hblk
      have := htgt node.id
      rw [hblk] at this
      cases this
    have hrows : ∀ node ∈ nodesWithStates nodes states, isUntargeted node.state = false := by
      intro node' hnode'
      obtain ⟨node, -, rfl⟩ := mem_map.mp hnode'
      exact htgt node.id
    rw [reconcileCancelledJobGraph_spec (collectGraph_withStates hcoll states) hvalid' hrows rfl]
    split <;> rfl
  have hafter : ∀ id, isUntargeted (afterRequest (graph.stateOf id)) = false :=
    fun id => isUntargeted_afterRequest _
  refine ⟨decision, hcancel, ?_, ?_⟩
  · have hpend : (∃ node ∈ nodesWithStates nodes fun id => afterRequest (graph.stateOf id),
        node.state = .cancelling) ↔ ∃ node ∈ nodes, afterRequest node.state = .cancelling := by
      have hperm := (collectGraph_eq_ok hcoll).2.2
      constructor
      · rintro ⟨node', hnode', hstate⟩
        obtain ⟨node, hnode, rfl⟩ := mem_map.mp hnode'
        refine ⟨node, hnode, ?_⟩
        rw [← graph.stateOf_of_mem (hperm.mem_iff.mpr hnode)]
        exact hstate
      · rintro ⟨node, hnode, hstate⟩
        refine ⟨_, mem_map_of_mem hnode, ?_⟩
        simp only [graph.stateOf_of_mem (hperm.mem_iff.mpr hnode)]
        exact hstate
    rw [hstore, htgtd _ hafter, hatt', hbuild']
    congr 2
    · exact if_congr hpend rfl rfl
    · exact if_congr hpend rfl rfl
  · intro facts reached hrun
    rw [hstore] at hrun
    obtain ⟨states, rfl, htgt⟩ := foldlM_recordFact_targeted facts hafter hrun
    refine ⟨_, htgtd states htgt, rfl, rfl, rfl, ?_⟩
    intro node' hnode'
    obtain ⟨node, -, rfl⟩ := mem_map.mp hnode'
    have := htgt node.id
    cases hs : states node.id <;> simp_all [isUntargeted, JobState.isTerminal]

/-- A finished root, a running Job and a blocked one. -/
def interruptedBuild : List JobGraphNode :=
  [.numbered 1 .succeeded [] .allSucceeded, .numbered 2 .running [1] .allSucceeded,
   .numbered 3 .blocked [2] .allCompleted]

/-- A failure reported late does not revive or fail the cancelled Build. -/
theorem interruptedBuild_final : ∃ decision,
      cancelJobStates .running .running (interruptedBuild.map fun node => (node.id, node.state)) =
        .ok decision ∧ ∀ (facts : List JobFact) (reached : List JobGraphNode),
        facts.foldlM recordFact (storeCancellation interruptedBuild decision.transitions) =
          some reached → ∃ current, reconcileCancelledJobGraph reached = .ok current ∧
          current.jobTransitions = [] := by
  obtain ⟨decision, hcancel, -, hfinal⟩ := cancelJobStates_final interruptedBuild .running .running
    (by decide +kernel) (by decide) (by decide)
  refine ⟨decision, hcancel, ?_⟩
  intro facts reached hrun
  obtain ⟨current, hcur, hnone, -⟩ := hfinal facts reached hrun
  exact ⟨current, hcur, hnone⟩

end OctaCity.Orchestrator
