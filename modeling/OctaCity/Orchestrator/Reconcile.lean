/-
  OctaCity.Orchestrator.Reconcile

  Reconciliation of one persisted Attempt graph
  (octacity-server-orchestrator, `reconcile.rs`).

  The graph is an id-ordered table of Jobs.  `validateGraph` rejects blocked
  roots, missing predecessors and cycles; `reconcile` sweeps a snapshot of the
  blocked Jobs, changing the graph as it goes, until one sweep changes nothing,
  and then derives the Attempt and Build states.  Both loops terminate on the
  measure given with them: unvisited Jobs and blocked Jobs.
-/
import OctaCity.Job.State
import OctaCity.Lib.Count
import OctaCity.Lib.Result
import OctaCity.Lib.Table
import OctaCity.Pipeline.Policy

namespace OctaCity.Orchestrator

open Domain Job Lib List Pipeline

inductive AttemptState
  | created
  | running
  | succeeded
  | failed
  | cancelled
  deriving DecidableEq

def AttemptState.isTerminal : AttemptState → Bool
  | .succeeded | .failed | .cancelled => true
  | .created | .running => false

inductive BuildState
  | queued
  | running
  | succeeded
  | failed
  | cancelled
  deriving DecidableEq

/-- Corrupt or inconsistent persisted facts that prevent safe reconciliation. -/
inductive OrchestrationError
  | emptyGraph
  | duplicateJob (jobId : JobId)
  | selfDependency (jobId : JobId)
  | duplicateDependency (jobId : JobId)
  | unknownDependency (jobId dependencyId : JobId)
  | cyclicGraph
  | blockedRoot (jobId : JobId)
  | invalidJobTransition (jobId : JobId)
  | cancellationNotPropagated (jobId : JobId)
  deriving DecidableEq

/-- One Job and its immutable fan-in, canonically ordered and without itself. -/
structure JobGraphNode where
  id : JobId
  state : JobState
  dependencies : List JobId
  dependencyPolicy : DependencyPolicy
  canonical : dependencies.Pairwise (· < ·)
  noSelf : id ∉ dependencies

variable {ids : List JobId} {graph : JobGraph} {next : JobState} {sweep sweep' : Sweep}

theorem pairwise_lt_of_sorted (hsort : ids.Pairwise (· ≤ ·))
    (hdist : ids.IsChain (· ≠ ·)) : ids.Pairwise (· < ·) := by
  rw [← isChain_iff_pairwise]
  induction hdist with
  | nil => exact List.IsChain.nil
  | singleton a => exact List.IsChain.singleton a
  | cons_cons hne _ ih =>
    rw [pairwise_cons] at hsort
    exact List.IsChain.cons_cons
      (lt_of_le_of_ne (hsort.1 _ (mem_cons_self ..)) hne) (ih hsort.2)

/-- Creates one graph node and canonicalizes its direct dependencies. -/
def JobGraphNode.new (id : JobId) (state : JobState) (dependencies : List JobId)
    (dependencyPolicy : DependencyPolicy) : Except OrchestrationError JobGraphNode :=
  let sorted := dependencies.insertionSort (· ≤ ·)
  if hself : id ∈ sorted then .error (.selfDependency id)
  else if hdist : sorted.IsChain (· ≠ ·) then
    .ok ⟨id, state, sorted, dependencyPolicy,
      pairwise_lt_of_sorted (pairwise_insertionSort (· ≤ ·) dependencies) hdist, hself⟩
  else .error (.duplicateDependency id)

/-- The node `new` makes of numbered Jobs. -/
def JobGraphNode.numbered (id : Nat) (state : JobState) (dependencies : List Nat)
    (dependencyPolicy : DependencyPolicy) : JobGraphNode :=
  (JobGraphNode.new ⟨id⟩ state (dependencies.map JobId.mk) dependencyPolicy).toOption.getD
    ⟨⟨id⟩, state, [], dependencyPolicy, .nil, not_mem_nil⟩

structure JobGraphTransition where
  jobId : JobId
  state : JobState
  deriving DecidableEq

structure OrchestrationDecision where
  jobTransitions : List JobGraphTransition
  attemptState : AttemptState
  buildState : BuildState
  deriving DecidableEq

abbrev JobGraph := Table JobGraphNode.id

/-! ## Collection and validation -/

def collectGraph (nodes : List JobGraphNode) : Except OrchestrationError JobGraph := do
  let graph ← (Table.empty : JobGraph).insertAll (fun node => .duplicateJob node.id) nodes
  if graph.rows.isEmpty then .error .emptyGraph else .ok graph

def checkNode (graph : JobGraph) (node : JobGraphNode) : Except OrchestrationError Unit :=
  if node.dependencies.isEmpty ∧ node.state = .blocked then .error (.blockedRoot node.id)
  else
    match node.dependencies.find? fun dependency => !graph.contains dependency with
    | some dependency => .error (.unknownDependency node.id dependency)
    | none => .ok ()

def visitNode (visited : List JobId) (node : JobGraphNode) : List JobId :=
  if node.id ∉ visited ∧ ∀ dependency ∈ node.dependencies, dependency ∈ visited then
    node.id :: visited
  else visited

/-- One pass over the graph, adding the Jobs whose predecessors are visited. -/
def visitRound (graph : JobGraph) (visited : List JobId) : List JobId :=
  graph.rows.foldl visitNode visited

def unvisited (graph : JobGraph) (visited : List JobId) : Nat :=
  graph.rows.countP fun node => node.id ∉ visited

theorem visitNode_cases (visited : List JobId) (node : JobGraphNode) :
    visitNode visited node = visited ∨
      (node.id ∉ visited ∧ visitNode visited node = node.id :: visited) := by
  unfold visitNode
  split
  · rename_i h
    exact Or.inr ⟨h.1, rfl⟩
  · exact Or.inl rfl

/-- A round keeps what it was given and adds only ids of the nodes it passes. -/
theorem foldl_visitNode_cases (nodes : List JobGraphNode) (visited : List JobId) :
    visited ⊆ nodes.foldl visitNode visited ∧ (nodes.foldl visitNode visited = visited ∨
        ∃ node ∈ nodes, node.id ∉ visited ∧ node.id ∈ nodes.foldl visitNode visited) := by
  induction nodes generalizing visited with
  | nil => exact ⟨fun _ h => h, Or.inl rfl⟩
  | cons node rest ih =>
    rw [foldl_cons]
    rcases visitNode_cases visited node with h | ⟨hfresh, h⟩
    · rw [h]
      obtain ⟨hsub, hcases⟩ := ih visited
      refine ⟨hsub, hcases.imp_right ?_⟩
      rintro ⟨m, hm, hm'⟩
      exact ⟨m, mem_cons_of_mem _ hm, hm'⟩
    · rw [h]
      obtain ⟨hsub, -⟩ := ih (node.id :: visited)
      refine ⟨fun x hx => hsub (mem_cons_of_mem _ hx), Or.inr ?_⟩
      exact ⟨node, mem_cons_self .., hfresh, hsub (mem_cons_self ..)⟩

theorem unvisited_lt {visited : List JobId}
    (h : (visitRound graph visited).length ≠ visited.length) :
    unvisited graph (visitRound graph visited) < unvisited graph visited := by
  obtain ⟨hsub, hcases⟩ := foldl_visitNode_cases graph.rows visited
  rcases hcases with heq | ⟨node, hnode, hold, hnew⟩
  · exact absurd (congrArg List.length heq) h
  · refine countP_lt_of_imp ?_ ⟨node, hnode, ?_, ?_⟩
    · intro m _ hm
      simp only [decide_eq_true_eq] at hm ⊢
      exact fun hm' => hm (hsub hm')
    · exact decide_eq_false (not_not.mpr hnew)
    · exact decide_eq_true hold

def visitAll (graph : JobGraph) (visited : List JobId) : Except OrchestrationError Unit :=
  let next := visitRound graph visited
  if next.length = graph.size then .ok ()
  else if _h : next.length = visited.length then .error .cyclicGraph
  else visitAll graph next
termination_by unvisited graph visited
decreasing_by exact unvisited_lt _h

def validateGraph (graph : JobGraph) : Except OrchestrationError Unit := do
  forM graph.rows (checkNode graph)
  visitAll graph []

/-- Validates one complete materialized Job dependency graph. -/
def validateJobGraph (nodes : List JobGraphNode) : Except OrchestrationError Unit := do
  let graph ← collectGraph nodes
  validateGraph graph

/-! ## The reconciliation loop -/

def dependencyOutcome : JobState → DependencyOutcome
  | .succeeded => .succeeded
  | .failed => .failed
  | .cancelled => .cancelled
  | .skipped => .skipped
  | .blocked | .ready | .leased | .running | .cancelling => .pending

def setNodeState (jobId : JobId) (state : JobState) (node : JobGraphNode) : JobGraphNode :=
  if node.id = jobId then { node with state } else node

theorem setNodeState_id (jobId : JobId) (state : JobState) (node : JobGraphNode) :
    (setNodeState jobId state node).id = node.id := by
  unfold setNodeState
  split <;> rfl

def JobGraph.setState (graph : JobGraph) (jobId : JobId) (state : JobState) : JobGraph :=
  graph.mapRows (setNodeState jobId state) (setNodeState_id jobId state)

def blockedJobs (graph : JobGraph) : List JobId :=
  graph.rows.filterMap fun node => if node.state = .blocked then some node.id else none

def decisionEvent : DependencyDecision → Option JobEvent
  | .blocked => none
  | .ready => some .dependenciesSatisfied
  | .skipped => some .dependencyFailed

/-- The mutable locals of one pass of the loop. -/
structure Sweep where
  graph : JobGraph
  jobTransitions : List JobGraphTransition
  changed : Bool

/-- The loop body for one Job of the snapshot. -/
def Sweep.visit (sweep : Sweep) (jobId : JobId) : Except OrchestrationError Sweep := do
  let node ← okOr (sweep.graph.find? jobId) (.invalidJobTransition jobId)
  let outcomes ← node.dependencies.mapM fun dependency =>
    okOr ((sweep.graph.find? dependency).map fun predecessor =>
      dependencyOutcome predecessor.state) (.unknownDependency jobId dependency)
  match decisionEvent (node.dependencyPolicy.decide outcomes) with
  | none => .ok sweep
  | some event =>
    match node.state.transition event with
    | .error _ => .error (.invalidJobTransition jobId)
    | .ok state =>
      .ok { graph := sweep.graph.setState jobId state
            jobTransitions := sweep.jobTransitions ++ [⟨jobId, state⟩]
            changed := true }

def blockedCount (graph : JobGraph) : Nat :=
  graph.rows.countP fun node => node.state = .blocked

/-- Only a blocked Job is moved by a dependency decision, and never back to
    blocked. -/
theorem transition_decisionEvent {state : JobState} {decision : DependencyDecision}
    {event : JobEvent} (he : decisionEvent decision = some event)
    (ht : state.transition event = .ok next) : state = .blocked ∧ next ≠ .blocked := by
  cases decision <;> cases he <;> cases state <;> cases ht <;> decide

/-- Leaving `blocked` lowers the number of blocked Jobs. -/
theorem blockedCount_setState_lt {node : JobGraphNode}
    (hnode : node ∈ graph.rows) (hblk : node.state = .blocked) (hnext : next ≠ .blocked) :
    blockedCount (graph.setState node.id next) < blockedCount graph := by
  unfold blockedCount JobGraph.setState
  rw [Table.mapRows_rows, countP_map]
  refine countP_lt_of_imp ?_ ⟨node, hnode, ?_, ?_⟩
  · intro m _ hm
    simp only [Function.comp_apply, setNodeState] at hm
    split at hm
    · exact absurd (of_decide_eq_true hm) hnext
    · exact hm
  · simpa [setNodeState] using hnext
  · simpa using hblk

/-- What one visit does to the number of blocked Jobs and to `changed`. -/
theorem Sweep.visit_measure {jobId : JobId} (h : sweep.visit jobId = .ok sweep') : sweep' = sweep ∨
      (blockedCount sweep'.graph < blockedCount sweep.graph ∧ sweep'.changed = true) := by
  obtain ⟨node, hfind, h⟩ := bind_eq_ok.mp h
  obtain ⟨outcomes, -, h⟩ := bind_eq_ok.mp h
  rw [okOr_eq_ok, Table.find?_eq_some_iff] at hfind
  split at h
  · cases h
    exact Or.inl rfl
  · rename_i event hevent
    split at h
    · cases h
    · rename_i state hstate
      cases h
      obtain ⟨hblk, hnext⟩ := transition_decisionEvent hevent hstate
      refine Or.inr ⟨?_, rfl⟩
      rw [← hfind.2]
      exact blockedCount_setState_lt hfind.1 hblk hnext

theorem Sweep.foldlM_visit_measure (h : ids.foldlM Sweep.visit sweep = .ok sweep') :
    blockedCount sweep'.graph ≤ blockedCount sweep.graph ∧
      (sweep.changed = false → sweep'.changed = true →
        blockedCount sweep'.graph < blockedCount sweep.graph) := by
  induction ids generalizing sweep with
  | nil =>
    cases h
    exact ⟨le_refl _, fun hf ht => absurd ht (by simp [hf])⟩
  | cons jobId rest ih =>
    obtain ⟨mid, hvisit, h⟩ := bind_eq_ok.mp h
    obtain ⟨hle, hlt⟩ := ih h
    rcases visit_measure hvisit with rfl | ⟨hdec, -⟩
    · exact ⟨hle, hlt⟩
    · exact ⟨hle.trans (le_of_lt hdec), fun _ _ => lt_of_le_of_lt hle hdec⟩

/-- Sweeps until one pass over the blocked Jobs changes nothing. -/
def settle (graph : JobGraph) (jobTransitions : List JobGraphTransition) :
    Except OrchestrationError (JobGraph × List JobGraphTransition) :=
  match _h : (blockedJobs graph).foldlM Sweep.visit ⟨graph, jobTransitions, false⟩ with
  | .error error => .error error
  | .ok sweep =>
    if _hc : sweep.changed = true then settle sweep.graph sweep.jobTransitions
    else .ok (sweep.graph, sweep.jobTransitions)
termination_by blockedCount graph
decreasing_by exact (Sweep.foldlM_visit_measure _h).2 rfl _hc

def deriveAttemptState (states : List JobState) (cancellationRequested : Bool) : AttemptState :=
  let allTerminal := states.all (·.isTerminal)
  let failed := states.any (· = .failed)
  let cancelled := states.any (· = .cancelled)
  if !allTerminal then .running
  else if cancellationRequested then .cancelled
  else if failed then .failed
  else if cancelled then .cancelled
  else .succeeded

def deriveBuildState : AttemptState → BuildState
  | .succeeded => .succeeded
  | .failed => .failed
  | .cancelled => .cancelled
  | .created | .running => .running

/-- A state durable cancellation must already have targeted. -/
def isUntargeted : JobState → Bool
  | .blocked | .ready | .leased | .running => true
  | _ => false

def reconcile (nodes : List JobGraphNode) (cancellationRequested : Bool) :
    Except OrchestrationError OrchestrationDecision := do
  let graph ← collectGraph nodes
  validateGraph graph
  match if cancellationRequested then graph.rows.find? (fun node => isUntargeted node.state)
      else none with
  | some node => .error (.cancellationNotPropagated node.id)
  | none =>
    let (graph, jobTransitions) ← settle graph []
    let attemptState :=
      deriveAttemptState (graph.rows.map (·.state)) cancellationRequested
    .ok { jobTransitions := jobTransitions.insertionSort (·.jobId ≤ ·.jobId)
          attemptState
          buildState := deriveBuildState attemptState }

/-- Reconciles one complete persisted Attempt graph to a deterministic fixed point. -/
def reconcileJobGraph (nodes : List JobGraphNode) :
    Except OrchestrationError OrchestrationDecision :=
  reconcile nodes false

/-- Reconciles a graph after durable Build cancellation was requested. -/
def reconcileCancelledJobGraph (nodes : List JobGraphNode) :
    Except OrchestrationError OrchestrationDecision :=
  reconcile nodes true

/-- The persisted rows after the transitions of a decision were stored. -/
def applyTransitions (nodes : List JobGraphNode) (jobTransitions : List JobGraphTransition) :
    List JobGraphNode :=
  nodes.map fun node =>
    match jobTransitions.find? (·.jobId = node.id) with
    | some selected => { node with state := selected.state }
    | none => node

end OctaCity.Orchestrator
