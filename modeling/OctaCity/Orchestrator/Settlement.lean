/-
  OctaCity.Orchestrator.Settlement

  What reconciliation is for, stated without its loop: a *settlement* of a Job
  graph keeps every Job that is not blocked and gives every blocked Job the state
  its policy decides on the settled states of its predecessors.  A validated graph
  is closed and acyclic, so it has at most one settlement (`IsSettlement.unique`).
-/
import OctaCity.Lib.LocalRule
import OctaCity.Orchestrator.Reconcile

namespace OctaCity.Orchestrator

open Domain Job Lib List Pipeline

/-! ## The abstract fixed point -/

def decisionState : DependencyDecision → JobState
  | .blocked => .blocked
  | .ready => .ready
  | .skipped => .skipped

def JobGraphNode.outcomes (node : JobGraphNode) (states : JobId → JobState) :
    List DependencyOutcome :=
  node.dependencies.map fun dependency => dependencyOutcome (states dependency)

/-- The state a blocked Job takes when its predecessors have these states. -/
def JobGraphNode.decided (node : JobGraphNode) (states : JobId → JobState) : JobState :=
  decisionState (node.dependencyPolicy.decide (node.outcomes states))

structure IsSettlement (nodes : List JobGraphNode) (final : JobId → JobState) : Prop where
  keeps : ∀ node ∈ nodes, node.state ≠ .blocked → final node.id = node.state
  decides : ∀ node ∈ nodes, node.state = .blocked → final node.id = node.decided final

variable {final states : JobId → JobState} {graph : JobGraph} {node : JobGraphNode}
  {visited : List JobId}

theorem IsSettlement.perm {nodes nodes' : List JobGraphNode}
    (hp : nodes'.Perm nodes) (h : IsSettlement nodes final) : IsSettlement nodes' final :=
  ⟨fun node hnode => h.keeps node (hp.mem_iff.mp hnode),
   fun node hnode => h.decides node (hp.mem_iff.mp hnode)⟩

theorem decisionState_eq_blocked {decision : DependencyDecision} :
    decisionState decision = .blocked ↔ decision = .blocked := by
  cases decision <;> simp [decisionState]

/-- The states of a Job's predecessors decide it. -/
theorem JobGraphNode.decided_congr (node : JobGraphNode) {states' : JobId → JobState}
    (h : ∀ dependency ∈ node.dependencies, states dependency = states' dependency) :
    node.decided states = node.decided states' := by
  have : node.outcomes states = node.outcomes states' := by
    apply map_congr_left
    intro dependency hd
    rw [h dependency hd]
  rw [JobGraphNode.decided, JobGraphNode.decided, this]

/-- A Job decided early keeps its decision when pending predecessors finish. -/
theorem JobGraphNode.decided_of_learns (node : JobGraphNode) {states' : JobId → JobState}
    (h : ∀ dependency ∈ node.dependencies,
      Learns (dependencyOutcome (states dependency)) (dependencyOutcome (states' dependency)))
    (hd : node.decided states ≠ .blocked) : node.decided states' = node.decided states := by
  unfold JobGraphNode.decided at hd ⊢
  rw [node.dependencyPolicy.decide_of_learns ?_ (fun hb => hd (decisionState_eq_blocked.mpr hb))]
  unfold JobGraphNode.outcomes
  rw [forall₂_map_left_iff, forall₂_map_right_iff, forall₂_same]
  exact h

theorem learns_of_blocked {state state' : JobState} (h : state = .blocked) :
    Learns (dependencyOutcome state) (dependencyOutcome state') := by
  rw [h]
  exact Or.inl rfl

/-! ## What validation establishes -/

/-- `predecessor` is a direct dependency of `job`. -/
def DependsOn (nodes : List JobGraphNode) (predecessor job : JobId) : Prop :=
  ∃ node ∈ nodes, node.id = job ∧ predecessor ∈ node.dependencies

structure WellFormed (graph : JobGraph) : Prop where
  closed : ∀ node ∈ graph.rows, ∀ dependency ∈ node.dependencies,
    ∃ predecessor ∈ graph.rows, predecessor.id = dependency
  rooted : ∀ node ∈ graph.rows, node.state = .blocked → node.dependencies ≠ []
  acyclic : ∀ node ∈ graph.rows, Acc (DependsOn graph.rows) node.id

theorem checkNode_eq_ok : checkNode graph node = .ok () ↔
      ¬ (node.dependencies = [] ∧ node.state = .blocked) ∧
        ∀ dependency ∈ node.dependencies, graph.contains dependency = true := by
  unfold checkNode
  rw [guard_eq_ok, List.isEmpty_iff]
  apply and_congr_right
  intro _
  cases hfind : node.dependencies.find? fun dependency => !graph.contains dependency with
  | none => simpa using hfind
  | some dependency =>
    have hmem := mem_of_find?_eq_some hfind
    have hbad := List.find?_some hfind
    constructor
    · intro h
      cases h
    · intro h
      rw [h dependency hmem] at hbad
      cases hbad

/-- The visited Jobs are distinct Jobs of the graph, and none of them reaches
    back into a cycle. -/
structure VisitedSound (graph : JobGraph) (visited : List JobId) : Prop where
  nodup : visited.Nodup
  subset : ∀ id ∈ visited, id ∈ graph.rows.map (·.id)
  acc : ∀ id ∈ visited, Acc (DependsOn graph.rows) id

section

variable (h : VisitedSound graph visited)

include h

theorem VisitedSound.visitNode (hnode : node ∈ graph.rows) :
    VisitedSound graph (visitNode visited node) := by
  unfold Orchestrator.visitNode
  split
  · rename_i hcond
    obtain ⟨hfresh, hdeps⟩ := hcond
    refine ⟨nodup_cons.mpr ⟨hfresh, h.nodup⟩, ?_, ?_⟩
    · intro id hid
      rcases mem_cons.mp hid with rfl | hid
      · exact mem_map_of_mem hnode
      · exact h.subset id hid
    · intro id hid
      rcases mem_cons.mp hid with rfl | hid
      · refine Acc.intro _ ?_
        rintro predecessor ⟨node', hnode', heq, hpred⟩
        rw [graph.eq_of_key_eq hnode' hnode heq] at hpred
        exact h.acc predecessor (hdeps predecessor hpred)
      · exact h.acc id hid
  · exact h

theorem VisitedSound.visitRound : VisitedSound graph (visitRound graph visited) := by
  unfold Orchestrator.visitRound
  have hall : ∀ nodes : List JobGraphNode, nodes ⊆ graph.rows → ∀ visited,
      VisitedSound graph visited →
        VisitedSound graph (nodes.foldl Orchestrator.visitNode visited) := by
    intro nodes
    induction nodes with
    | nil => exact fun _ _ h => h
    | cons node rest ih =>
      intro hsub visited h
      exact ih (subset_of_cons_subset hsub) _ (h.visitNode (hsub (mem_cons_self ..)))
  exact hall graph.rows (List.Subset.refl _) visited h

/-- When every Job was visited no Job is on a cycle. -/
theorem VisitedSound.acyclic (hlen : visited.length = graph.size) :
    ∀ node ∈ graph.rows, Acc (DependsOn graph.rows) node.id := by
  intro node hnode
  apply h.acc
  have hsub : visited.Subperm (graph.rows.map (·.id)) := subperm_of_subset h.nodup h.subset
  have hperm := hsub.perm_of_length_le (by rw [length_map, hlen]; exact le_refl _)
  exact hperm.mem_iff.mpr (mem_map_of_mem hnode)

end

theorem visitAll_eq (graph : JobGraph) (visited : List JobId) : visitAll graph visited =
      if (visitRound graph visited).length = graph.size then .ok ()
      else if (visitRound graph visited).length = visited.length then .error .cyclicGraph
      else visitAll graph (visitRound graph visited) := by
  conv_lhs => unfold visitAll
  rfl

theorem visitAll_acyclic (hok : visitAll graph visited = .ok ()) (h : VisitedSound graph visited) :
    ∀ node ∈ graph.rows, Acc (DependsOn graph.rows) node.id := by
  induction visited using visitAll.induct graph with
  | case1 visited next hlen => exact h.visitRound.acyclic hlen
  | case2 visited next hlen hstuck =>
    rw [visitAll_eq, if_neg hlen, if_pos hstuck] at hok
    cases hok
  | case3 visited next hlen hgrew ih =>
    rw [visitAll_eq, if_neg hlen, if_neg hgrew] at hok
    exact ih hok h.visitRound

theorem WellFormed.of_validateGraph (h : validateGraph graph = .ok ()) : WellFormed graph := by
  obtain ⟨_, hcheck, hvisit⟩ := bind_eq_ok.mp h
  have hnodes := forM_eq_ok.mp hcheck
  refine ⟨?_, ?_, ?_⟩
  · intro node hnode dependency hdep
    exact (graph.contains_iff dependency).mp
      ((checkNode_eq_ok.mp (hnodes node hnode)).2 dependency hdep)
  · intro node hnode hblk hroot
    exact (checkNode_eq_ok.mp (hnodes node hnode)).1 ⟨hroot, hblk⟩
  · refine visitAll_acyclic hvisit ⟨nodup_nil, ?_, ?_⟩
    · intro id hid
      cases hid
    · intro id hid
      cases hid

/-! ## Uniqueness of the settlement -/

/-- The settlement as a local rule on Job identities. -/
def settlementRule (graph : JobGraph) (id : JobId) (states : JobId → JobState) : JobState :=
  match graph.find? id with
  | some node => if node.state = .blocked then node.decided states else node.state
  | none => .blocked

theorem IsSettlement.isFixedBy (h : IsSettlement graph.rows final) :
    IsFixedBy (settlementRule graph) {id | ∃ node ∈ graph.rows, node.id = id} final := by
  rintro id ⟨node, hnode, rfl⟩
  rw [settlementRule, graph.find?_of_mem hnode]
  by_cases hblk : node.state = .blocked
  · simpa [hblk] using h.decides node hnode hblk
  · simpa [hblk] using h.keeps node hnode hblk

theorem IsSettlement.unique (hwf : WellFormed graph)
    {final' : JobId → JobState} (h : IsSettlement graph.rows final)
    (h' : IsSettlement graph.rows final') : ∀ node ∈ graph.rows, final node.id = final' node.id := by
  intro node hnode
  have hlocal : IsLocalRule (DependsOn graph.rows) {id | ∃ m ∈ graph.rows, m.id = id}
      (settlementRule graph) := by
    rintro id ⟨m, hm, rfl⟩ f g hfg
    simp only [settlementRule, graph.find?_of_mem hm]
    split
    · exact m.decided_congr fun dependency hdep => hfg dependency ⟨m, hm, rfl, hdep⟩
    · rfl
  refine IsFixedBy.eqOn hlocal ?_ ?_ h.isFixedBy h'.isFixedBy ⟨node, hnode, rfl⟩
  · rintro id ⟨m, hm, rfl⟩ predecessor ⟨m', hm', heq, hdep⟩
    exact hwf.closed m' hm' predecessor hdep
  · rintro id ⟨m, hm, rfl⟩
    exact hwf.acyclic m hm

/-! ## Graphs that differ only in Job states -/

namespace JobGraph

def stateOf (graph : JobGraph) (id : JobId) : JobState :=
  match graph.find? id with
  | some node => node.state
  | none => .blocked

def withStates (graph : JobGraph) (states : JobId → JobState) : JobGraph :=
  graph.mapRows (fun node => { node with state := states node.id }) fun _ => rfl

theorem withStates_rows (graph : JobGraph) (states : JobId → JobState) :
    (graph.withStates states).rows =
      graph.rows.map fun node => { node with state := states node.id } := rfl

theorem stateOf_of_mem (graph : JobGraph) (hnode : node ∈ graph.rows) :
    graph.stateOf node.id = node.state := by
  rw [stateOf, graph.find?_of_mem hnode]

theorem withStates_stateOf (graph : JobGraph) : graph.withStates graph.stateOf = graph := by
  apply Table.ext
  rw [withStates_rows]
  conv_rhs => rw [← map_id graph.rows]
  apply map_congr_left
  intro node hnode
  rw [graph.stateOf_of_mem hnode]
  rfl

theorem withStates_find? (graph : JobGraph) (states : JobId → JobState)
    (hnode : node ∈ graph.rows) :
    (graph.withStates states).find? node.id = some { node with state := states node.id } := by
  rw [withStates, Table.mapRows_find?, graph.find?_of_mem hnode]
  rfl

theorem setState_withStates (graph : JobGraph) (states : JobId → JobState) (id : JobId)
    (state : JobState) : (graph.withStates states).setState id state =
      graph.withStates (Function.update states id state) := by
  apply Table.ext
  rw [setState, Table.mapRows_rows, withStates_rows, withStates_rows, map_map]
  apply map_congr_left
  intro node _
  rw [Function.comp_apply, setNodeState]
  by_cases h : node.id = id
  · simp [h]
  · simp [h]

/-- Validation reads a Job's state only to reject blocked roots. -/
theorem validateGraph_withStates
    (hstates : ∀ node ∈ graph.rows, states node.id = .blocked → node.state = .blocked)
    (h : validateGraph graph = .ok ()) : validateGraph (graph.withStates states) = .ok () := by
  obtain ⟨_, hcheck, hvisit⟩ := bind_eq_ok.mp h
  refine bind_eq_ok.mpr ⟨(), forM_eq_ok.mpr ?_, ?_⟩
  · intro node' hnode'
    obtain ⟨node, hnode, rfl⟩ := mem_map.mp hnode'
    obtain ⟨hroot, hdeps⟩ := checkNode_eq_ok.mp (forM_eq_ok.mp hcheck node hnode)
    refine checkNode_eq_ok.mpr ⟨?_, ?_⟩
    · rintro ⟨hempty, hblk⟩
      exact hroot ⟨hempty, hstates node hnode hblk⟩
    · intro dependency hdep
      rw [withStates, Table.mapRows_contains]
      exact hdeps dependency hdep
  · have hround : ∀ visited, visitRound (graph.withStates states) visited =
        visitRound graph visited := by
      intro visited
      rw [visitRound, withStates_rows, foldl_map]
      rfl
    have hsize : (graph.withStates states).size = graph.size := by
      rw [Table.size, withStates_rows, length_map]
      rfl
    have hall : ∀ visited, visitAll (graph.withStates states) visited =
        visitAll graph visited := by
      intro visited
      induction visited using visitAll.induct graph with
      | case1 visited next hlen =>
        rw [visitAll_eq, visitAll_eq graph, hround, hsize, if_pos hlen, if_pos hlen]
      | case2 visited next hlen hstuck =>
        rw [visitAll_eq, visitAll_eq graph, hround, hsize, if_neg hlen, if_neg hlen,
          if_pos hstuck, if_pos hstuck]
      | case3 visited next hlen hgrew ih =>
        rw [visitAll_eq, visitAll_eq graph, hround, hsize, if_neg hlen, if_neg hlen,
          if_neg hgrew, if_neg hgrew, ih]
    rw [hall]
    exact hvisit

end JobGraph

end OctaCity.Orchestrator
