/-
  OctaCity.Factory.Graph

  Structural analysis of a directed control graph (octacity-server-factory,
  `graph.rs`): canonical nodes and edges, reachability, strongly connected
  components and fan-out.

  Components are found as in the source: a first depth-first pass records the
  finishing order, a second one over the reversed edges collects a component
  from each node not visited before.  Stacks are lists with the top first.
-/
import OctaCity.Lib.Count
import OctaCity.Lib.Table
import Mathlib.Data.Prod.Lex

namespace OctaCity.Factory.Graph

open Lib List

variable {Id : Type}

structure StructuralEdge (Id : Type) where
  predecessor : Id
  successor : Id
  deriving DecidableEq

inductive StructuralIssue (Id : Type)
  | duplicateNode (node : Id)
  | duplicateEdge (edge : StructuralEdge Id)
  | missingNode (node : Id)

variable [LinearOrder Id]

instance : LinearOrder (StructuralEdge Id) :=
  LinearOrder.lift' (fun edge => toLex (edge.predecessor, edge.successor)) fun a b h => by
    cases a
    cases b
    simpa using h

/-- The adjacency sets, in ascending order, of canonical edges. -/
def successors (edges : List (StructuralEdge Id)) (node : Id) : List Id :=
  (edges.filter fun edge => edge.predecessor = node).map (·.successor)

def predecessors (edges : List (StructuralEdge Id)) (node : Id) : List Id :=
  (edges.filter fun edge => edge.successor = node).map (·.predecessor)

/-! ## Depth-first searches -/

def remaining (nodes visited : List Id) : Nat :=
  nodes.countP fun node => node ∉ visited

variable {nodes visited : List Id}

theorem remaining_lt {node : Id} (hnode : node ∈ nodes)
    (hfresh : node ∉ visited) : remaining nodes (node :: visited) < remaining nodes visited := by
  refine countP_lt_of_imp ?_ ⟨node, hnode, ?_, ?_⟩
  · intro other _ hother
    simp only [decide_eq_true_eq, mem_cons, not_or] at hother ⊢
    exact hother.2
  · simp
  · simpa using hfresh

/-- What the searches may still push: each unvisited node brings its
    adjacency set, itself and its finishing mark. -/
def weight (next : Id → List Id) (nodes visited : List Id) : Nat :=
  ((nodes.filter fun node => node ∉ visited).map fun node => (next node).length + 2).sum

theorem weight_cons (next : Id → List Id) (other : Id) (nodes visited : List Id) :
    weight next (other :: nodes) visited =
      (if other ∉ visited then (next other).length + 2 else 0) + weight next nodes visited := by
  unfold weight
  by_cases h : other ∈ visited <;> simp [h]

theorem weight_visit_le (next : Id → List Id) (node : Id) (nodes visited : List Id) :
    weight next nodes (node :: visited) ≤ weight next nodes visited := by
  induction nodes with
  | nil => exact le_refl _
  | cons other rest ih =>
    rw [weight_cons, weight_cons]
    refine Nat.add_le_add ?_ ih
    by_cases h : other ∈ visited
    · simp [h]
    · by_cases heq : other = node <;> simp [h, heq]

theorem weight_visit (next : Id → List Id) {node : Id}
    (hnode : node ∈ nodes) (hfresh : node ∉ visited) :
    weight next nodes (node :: visited) + ((next node).length + 2) ≤ weight next nodes visited := by
  induction nodes with
  | nil => cases hnode
  | cons other rest ih =>
    rw [weight_cons, weight_cons]
    by_cases heq : other = node
    · have := weight_visit_le next node rest visited
      simp only [heq, mem_cons, true_or, not_true_eq_false, if_false, hfresh,
        not_false_eq_true, if_true]
      omega
    · have := ih ((mem_cons.mp hnode).resolve_left (Ne.symm heq))
      simp only [mem_cons, heq, false_or]
      omega

/-- Adds everything reachable from the pending nodes through unvisited ones.
    Nodes outside the graph have no adjacency set and are never pending. -/
def search (next : Id → List Id) (nodes : List Id) (pending visited : List Id) : List Id :=
  match pending with
  | [] => visited
  | node :: rest =>
    if _h : node ∈ visited ∨ node ∉ nodes then search next nodes rest visited
    else
      search next nodes ((next node).filter (fun other => other ∉ node :: visited) ++ rest)
        (node :: visited)
termination_by weight next nodes visited + pending.length
decreasing_by
  · rw [length_cons]
    omega
  · rw [not_or, not_not] at _h
    have hweight := weight_visit next _h.2 _h.1
    have hfilt := length_filter_le (fun other => decide (other ∉ node :: visited)) (next node)
    rw [length_append, length_cons]
    omega

/-- A property that adjacent nodes inherit holds of everything found. -/
theorem search_induction {P : Id → Prop} {next : Id → List Id} {pending : List Id}
    (hnext : ∀ node, P node → ∀ other ∈ next node, P other) (hpend : ∀ node ∈ pending, P node)
    (hvisd : ∀ node ∈ visited, P node) : ∀ node ∈ search next nodes pending visited, P node := by
  fun_induction search next nodes pending visited with
  | case1 visited => exact hvisd
  | case2 visited node rest _ ih =>
    exact ih (fun other hother => hpend other (mem_cons_of_mem _ hother)) hvisd
  | case3 visited node rest _ ih =>
    have hnode : P node := hpend node (mem_cons_self ..)
    refine ih ?_ ?_
    · intro other hother
      rcases mem_append.mp hother with hother | hother
      · exact hnext node hnode other (mem_filter.mp hother).1
      · exact hpend other (mem_cons_of_mem _ hother)
    · intro other hother
      rcases mem_cons.mp hother with rfl | hother
      · exact hnode
      · exact hvisd other hother

/-- The first pass: the visited nodes and the nodes in reverse finishing order. -/
def visitForFinishOrder (next : Id → List Id) (nodes : List Id) (pending : List (Id × Bool))
    (visited finished : List Id) : List Id × List Id :=
  match pending with
  | [] => (visited, finished)
  | (node, true) :: rest => visitForFinishOrder next nodes rest visited (node :: finished)
  | (node, false) :: rest =>
    if _h : node ∈ visited ∨ node ∉ nodes then
      visitForFinishOrder next nodes rest visited finished
    else
      visitForFinishOrder next nodes
        (((next node).filter (fun other => other ∉ node :: visited)).map (·, false) ++
          (node, true) :: rest)
        (node :: visited) finished
termination_by weight next nodes visited + pending.length
decreasing_by
  · rw [length_cons]
    omega
  · rw [length_cons]
    omega
  · rw [not_or, not_not] at _h
    have hweight := weight_visit next _h.2 _h.1
    have hfilt := length_filter_le (fun other => decide (other ∉ node :: visited)) (next node)
    rw [length_append, length_cons, length_cons, length_map]
    omega

/-- Every node in reverse finishing order. -/
def finishOrder (next : Id → List Id) (nodes : List Id) : List Id :=
  (nodes.foldl (fun state node => visitForFinishOrder next nodes [(node, false)] state.1 state.2)
    ([], [])).2

/-- The second pass over the reversed edges; a component is what one search
    newly visits. -/
def collectComponents (previous : Id → List Id) (nodes order : List Id) :
    List Id × List (List Id) :=
  order.foldl
    (fun state node =>
      if node ∈ state.1 then state
      else
        let visited := search previous nodes [node] state.1
        let component := (OrdSet.ofList (visited.filter fun other => other ∉ state.1)).rows
        (visited, state.2 ++ [component]))
    ([], [])

/-- The components in the order they are found; the source sorts them, and
    only which nodes share one is read. -/
def stronglyConnectedComponents (nodes : List Id) (edges : List (StructuralEdge Id)) :
    List (List Id) :=
  (collectComponents (predecessors edges) nodes (finishOrder (successors edges) nodes)).2

def isCyclicComponent (edges : List (StructuralEdge Id)) (component : List Id) : Bool :=
  1 < component.length ||
    match component.head? with
    | some node => node ∈ successors edges node
    | none => false

/-! ## Analysis -/

structure StructuralFacts (Id : Type) where
  nodes : List Id
  edges : List (StructuralEdge Id)
  reachable : List Id
  components : List (List Id)
  cyclicComponents : List (List Id)
  maxFanOut : Nat

/-- Everything wrong with the identities; no caller reads more than whether
    there is an issue. -/
def structuralIssues (nodes : List Id) (edges : List (StructuralEdge Id)) (roots : List Id) :
    List (StructuralIssue Id) :=
  (nodes.filter fun node => 1 < nodes.count node).map .duplicateNode ++
  (edges.filter fun edge => 1 < edges.count edge).map .duplicateEdge ++
  ((edges.flatMap fun edge => [edge.predecessor, edge.successor]) ++ roots).filterMap
    fun node => if node ∈ nodes then none else some (.missingNode node)

def analyze (nodes : List Id) (edges : List (StructuralEdge Id)) (roots : List Id) :
    Except (List (StructuralIssue Id)) (StructuralFacts Id) :=
  let canonicalNodes := (OrdSet.ofList nodes).rows
  let canonicalEdges := (OrdSet.ofList edges).rows
  let issues := structuralIssues nodes edges roots
  if !issues.isEmpty then .error issues
  else
    let components := stronglyConnectedComponents canonicalNodes canonicalEdges
    .ok
      { nodes := canonicalNodes
        edges := canonicalEdges
        reachable := (OrdSet.ofList (search (successors canonicalEdges) canonicalNodes
          (OrdSet.ofList roots).rows [])).rows
        components
        cyclicComponents := components.filter (isCyclicComponent canonicalEdges)
        maxFanOut :=
          (canonicalNodes.map fun node => (successors canonicalEdges node).length).foldl max 0 }

end OctaCity.Factory.Graph
