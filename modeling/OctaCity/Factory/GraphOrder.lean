/-
  OctaCity.Factory.GraphOrder

  The order in which the analysis places nodes, the depth along it, and what
  the whole analysis guarantees.

  Main result: `analyzeStructure_exact`: components are the classes of mutual
  reachability, the order exists exactly for graphs without a cycle, and the
  depth is the length of the longest path.
-/
import OctaCity.Factory.GraphCycles
import OctaCity.Lib.Result
import OctaCity.Lib.Topological

namespace OctaCity.Factory.Graph

open Lib List Relation

variable {Id : Type} [LinearOrder Id]

/-! ## The order -/

/-- Takes off one edge of a placed node.  The counts of the nodes are the entries of the map. -/
def settle (state : (Id → Nat) × OrdSet Id) (successor : Id) : (Id → Nat) × OrdSet Id :=
  let count := state.1 successor - 1
  (Function.update state.1 successor count,
    if count = 0 then state.2.insert successor else state.2)

/-- The loop over the ready nodes, least first, with a turn for each node. -/
def placeReady (edges : List (StructuralEdge Id)) :
    Nat → (Id → Nat) × OrdSet Id → List Id → List Id
  | 0, _, order => order
  | turns + 1, (inDegree, ready), order =>
    match ready.rows with
    | [] => order
    | node :: _ =>
      placeReady edges turns ((successors edges node).foldl settle (inDegree, ready.erase node))
        (order ++ [node])

def topologicalOrder (nodes : List Id) (edges : List (StructuralEdge Id)) : Option (List Id) :=
  let inDegree := fun node => (nodes.flatMap (successors edges)).count node
  let ready := OrdSet.ofList (nodes.filter fun node => inDegree node = 0)
  let order := placeReady edges (nodes.length + 1) (inDegree, ready) []
  if order.length = nodes.length then some order else none

theorem foldl_settle (placed : List Id) (state : (Id → Nat) × OrdSet Id) :
    (∀ node, (placed.foldl settle state).1 node = state.1 node - placed.count node) ∧
      ∀ node, node ∈ (placed.foldl settle state).2.rows ↔
        node ∈ state.2.rows ∨ node ∈ placed ∧ (placed.foldl settle state).1 node = 0 := by
  induction placed generalizing state with
  | nil => simp
  | cons first rest ih =>
    obtain ⟨hcount, hready⟩ := ih (settle state first)
    have hcount : ∀ node, ((first :: rest).foldl settle state).1 node =
        state.1 node - (first :: rest).count node := by
      intro node
      rw [foldl_cons, hcount]
      by_cases h : node = first
      · subst h
        rw [show (settle state node).1 node = state.1 node - 1 from Function.update_self ..,
          count_cons_self]
        omega
      · rw [show (settle state first).1 node = state.1 node from Function.update_of_ne h ..,
          count_cons_of_ne (Ne.symm h)]
    refine ⟨hcount, fun node => ?_⟩
    have hold : node ∈ (settle state first).2.rows ↔
        node ∈ state.2.rows ∨ node = first ∧ state.1 node - 1 = 0 := by
      unfold settle
      by_cases h : node = first
      · subst h
        by_cases hzero : state.1 node - 1 = 0 <;> simp [hzero, OrdSet.mem_insert]
      · by_cases hzero : state.1 first - 1 = 0 <;> simp [h, hzero, OrdSet.mem_insert]
    rw [foldl_cons] at hcount ⊢
    rw [hready, hold, hcount, mem_cons]
    by_cases h : node = first
    · subst h
      rw [count_cons_self]
      -- The count gets to zero here or at a later edge to the same node.
      have hzero : state.1 node - 1 = 0 ∨ node ∈ rest ∧ state.1 node - (rest.count node + 1) = 0 ↔
          state.1 node - (rest.count node + 1) = 0 := by
        by_cases hrest : node ∈ rest
        · simp only [hrest, true_and]
          omega
        · simp [hrest, count_eq_zero_of_not_mem hrest]
      simp only [true_and, true_or, or_assoc, hzero]
    · simp [h]

variable {nodes order : List Id} {edges : List (StructuralEdge Id)} {node : Id}

/-- The edges to a node from nodes that are not placed. -/
def waiting (nodes : List Id) (edges : List (StructuralEdge Id)) (order : List Id) (node : Id) :
    Nat :=
  ((nodes.diff order).flatMap (successors edges)).count node

theorem waiting_eq_zero (hjoins : Joins nodes edges) (hnodup : nodes.Nodup) :
    waiting nodes edges order node = 0 ↔ ∀ other, Edge edges other node → other ∈ order := by
  simp only [waiting, count_eq_zero, mem_flatMap, hnodup.mem_sdiff_iff, mem_successors,
    not_exists, not_and]
  refine forall_congr' fun other => ⟨fun h hedge => ?_, fun h hother hedge => hother.2 (h hedge)⟩
  by_contra hopen
  exact h ⟨(hjoins _ hedge).1, hopen⟩ hedge

/-- Placing a node takes off its edges. -/
theorem waiting_snoc (hnodup : nodes.Nodup) (hnode : node ∈ nodes) (hfresh : node ∉ order)
    (other : Id) : waiting nodes edges order other =
      (successors edges node).count other + waiting nodes edges (order ++ [node]) other := by
  have hperm := perm_cons_erase (hnodup.mem_sdiff_iff.mpr ⟨hnode, hfresh⟩)
  rw [waiting, waiting, (hperm.flatMap_right _).count_eq, flatMap_cons, count_append,
    diff_append, diff_cons, diff_nil]

/-- What holds at the head of the loop. -/
structure Placed (nodes : List Id) (edges : List (StructuralEdge Id))
    (state : (Id → Nat) × OrdSet Id) (order : List Id) : Prop where
  degree : ∀ node, state.1 node = waiting nodes edges order node
  ready : ∀ node, node ∈ state.2.rows ↔ Ready nodes (Edge edges) order node
  preceded : ∀ node ∈ order, ∀ other, Edge edges other node → other ∈ order
  nodup : order.Nodup
  subset : order ⊆ nodes

section

variable {state : (Id → Nat) × OrdSet Id} (hjoins : Joins nodes edges) (hnodup : nodes.Nodup)

include hjoins hnodup

theorem Placed.turn (h : Placed nodes edges state order)
    (hready : Ready nodes (Edge edges) order node) :
    Placed nodes edges ((successors edges node).foldl settle (state.1, state.2.erase node))
      (order ++ [node]) := by
  obtain ⟨hcount, hmem⟩ := foldl_settle (successors edges node) (state.1, state.2.erase node)
  have hdegree : ∀ other, ((successors edges node).foldl settle (state.1, state.2.erase node)).1
      other = waiting nodes edges (order ++ [node]) other := by
    intro other
    rw [hcount, h.degree, waiting_snoc hnodup hready.mem hready.fresh]
    omega
  refine ⟨hdegree, fun other => ?_, ?_, ?_, ?_⟩
  · rw [hmem, hdegree, waiting_eq_zero hjoins hnodup, Table.mem_erase, h.ready, mem_successors]
    exact (hready.snoc_iff h.preceded fun b hb => (hjoins _ hb).2).symm
  · exact forall_mem_concat.mpr
      ⟨fun placed hplaced other hedge => mem_append_left _ (h.preceded placed hplaced other hedge),
        fun other hedge => mem_append_left _ (hready.preceded other hedge)⟩
  · rw [← concat_eq_append]
    exact h.nodup.concat hready.fresh
  · exact append_subset.mpr ⟨h.subset, by simpa using hready.mem⟩

theorem placeReady_greedy {turns : Nat} (h : Placed nodes edges state order)
    (hturns : nodes.length < order.length + turns) :
    ∃ rest, placeReady edges turns state order = order ++ rest ∧
      Greedy nodes (Edge edges) order rest := by
  induction turns generalizing state order with
  | zero =>
    have := (subperm_of_subset h.nodup h.subset).length_le
    omega
  | succ turns ih =>
    obtain ⟨inDegree, ready⟩ := state
    cases hrows : ready.rows with
    | nil =>
      refine ⟨[], by rw [placeReady, hrows, append_nil], .done fun node hready => ?_⟩
      have hmem := (h.ready node).mpr hready
      simp only [hrows] at hmem
      cases hmem
    | cons node others =>
      have hready := (h.ready node).mp (by simp only [hrows]; exact mem_cons_self)
      obtain ⟨rest, hplace, hgreedy⟩ := ih (h.turn hjoins hnodup hready)
        (by rw [length_append, length_singleton]; omega)
      refine ⟨node :: rest, ?_, .place hready (fun other hother =>
        OrdSet.head_le hrows ((h.ready other).mpr hother)) hgreedy⟩
      rw [placeReady, hrows]
      rw [append_assoc] at hplace
      exact hplace

/-- The order exists exactly for graphs without a cycle. -/
theorem topologicalOrder_spec :
    ((topologicalOrder nodes edges).isSome ↔ ∀ node, ¬TransGen (Edge edges) node node) ∧
      ∀ order ∈ topologicalOrder nodes edges,
        order.Perm nodes ∧ order.Nodup ∧ Respects (Edge edges) order := by
  have hstart : Placed nodes edges (fun node => (nodes.flatMap (successors edges)).count node,
      OrdSet.ofList (nodes.filter fun node => (nodes.flatMap (successors edges)).count node = 0))
      [] := by
    have hdegree : ∀ node, (nodes.flatMap (successors edges)).count node =
        waiting nodes edges [] node := by simp [waiting]
    refine ⟨hdegree, fun node => ?_, nofun, .nil, nil_subset _⟩
    rw [OrdSet.mem_ofList, mem_filter, decide_eq_true_eq, hdegree,
      waiting_eq_zero hjoins hnodup]
    exact ⟨fun h => ⟨h.1, not_mem_nil, h.2⟩, fun h => ⟨h.mem, h.preceded⟩⟩
  have hturns : nodes.length < ([] : List Id).length + (nodes.length + 1) := by
    rw [length_nil]
    omega
  obtain ⟨order, hplace, hgreedy⟩ := placeReady_greedy hjoins hnodup hstart hturns
  have hdist := hgreedy.nodup .nil
  have hperm : order.length = nodes.length ↔ order.Perm nodes :=
    ⟨fun h => (subperm_of_subset hdist hgreedy.subset).perm_of_length_le h.ge,
      List.Perm.length_eq⟩
  unfold topologicalOrder
  simp only [hplace, nil_append, hperm]
  rw [← hgreedy.perm_iff hnodup fun a b hedge => hjoins _ hedge]
  refine ⟨by split <;> simp [*], fun found hfound => ?_⟩
  obtain ⟨hsame, hfound⟩ := Option.ite_none_right_eq_some.mp hfound
  cases hfound
  refine ⟨hsame, hdist, hgreedy.respects ?_⟩
  intro front x rest heq
  simp at heq

end

/-! ## The depth -/

/-- Every successor of the node lies deeper than the node. -/
def deepen (edges : List (StructuralEdge Id)) (depths : Id → Nat) (node : Id) : Id → Nat :=
  let nextDepth := depths node + 1
  (successors edges node).foldl
    (fun depths successor => Function.update depths successor (max (depths successor) nextDepth))
    depths

def maximumDepth (edges : List (StructuralEdge Id)) (order : List Id) : Nat :=
  let depths := order.foldl (deepen edges) fun _ => 0
  (order.map depths).max?.getD 0

theorem deepen_apply (depths : Id → Nat) (node other : Id) : deepen edges depths node other =
    if other ∈ successors edges node then max (depths other) (depths node + 1)
    else depths other := by
  have hall : ∀ (rest : List Id) (found : Id → Nat), rest.foldl (fun found successor =>
      Function.update found successor (max (found successor) (depths node + 1))) found other =
        if other ∈ rest then max (found other) (depths node + 1) else found other := by
    intro rest
    induction rest with
    | nil => simp
    | cons first rest ih =>
      intro found
      rw [foldl_cons, ih]
      by_cases h : other = first
      · subst h
        simp
      · simp [h]
  exact hall _ _

/-- A depth is the length of a path, and the edges of the placed nodes go deeper. -/
theorem depths_spec (hresp : Respects (Edge edges) order) (hnodup : order.Nodup) :
    let depths := order.foldl (deepen edges) fun _ => 0
    (∀ node, ∃ path, (path ++ [node]).IsChain (Edge edges) ∧ path.length = depths node) ∧
      ∀ node ∈ order, ∀ other, Edge edges node other → depths node + 1 ≤ depths other := by
  induction order using List.reverseRecOn with
  | nil => exact ⟨fun node => ⟨[], isChain_singleton _, rfl⟩, nofun⟩
  | append_singleton front last ih =>
    have hfresh : last ∉ front := fun hmem =>
      (nodup_append.mp hnodup).2.2 last hmem last (mem_singleton_self _) rfl
    -- No edge of the last node leads back.
    have hnone : ∀ node ∈ front ++ [last], node ∉ successors edges last := by
      intro node hnode hedge
      have hlt := hresp.idxOf_lt (mem_successors.mp hedge) hnode
      rw [idxOf_append_of_notMem hfresh, idxOf_cons_self] at hlt
      have := idxOf_lt_length_of_mem hnode
      rw [length_append, length_singleton] at this
      omega
    obtain ⟨hpath, hdeeper⟩ := ih hresp.of_snoc (nodup_append.mp hnodup).1
    simp only [foldl_append, foldl_cons, foldl_nil, deepen_apply]
    refine ⟨fun node => ?_, fun node hnode other hedge => ?_⟩
    · split
      · rename_i hedge
        rcases max_choice (front.foldl (deepen edges) (fun _ => 0) node)
          (front.foldl (deepen edges) (fun _ => 0) last + 1) with hmax | hmax
        · rw [hmax]
          exact hpath node
        · obtain ⟨path, hchain, hlen⟩ := hpath last
          refine ⟨path ++ [last], ?_, by rw [hmax, length_append, hlen]; rfl⟩
          rw [append_assoc, singleton_append, isChain_split]
          exact ⟨hchain, isChain_pair.mpr (mem_successors.mp hedge)⟩
      · exact hpath node
    · rw [if_neg (hnone node hnode)]
      rcases mem_concat.mp hnode with hmem | rfl
      · have := hdeeper node hmem other hedge
        split <;> omega
      · rw [if_pos (mem_successors.mpr hedge)]
        exact le_max_right _ _

theorem maximumDepth_isGreatest (hresp : Respects (Edge edges) order) (hnodup : order.Nodup)
    (hplaced : ∀ a b, Edge edges a b → a ∈ order ∧ b ∈ order) :
    IsGreatest {n | ∃ path : List Id, path.IsChain (Edge edges) ∧ path.length - 1 = n}
      (maximumDepth edges order) := by
  obtain ⟨hpath, hdeeper⟩ := depths_spec hresp hnodup
  exact isGreatest_depth hpath (fun a b hedge => hdeeper a (hplaced a b hedge).1 b hedge)
    fun a b hedge => (hplaced a b hedge).2

/-! ## The whole analysis -/

/-- What `analyze` returns with the components sorted, the order and the depth. -/
structure StructuralAnalysis (Id : Type) extends StructuralFacts Id where
  topologicalOrder : Option (List Id)
  maxDepth : Option Nat

def analyzeStructure (nodes : List Id) (edges : List (StructuralEdge Id)) (roots : List Id) :
    Except (List (StructuralIssue Id)) (StructuralAnalysis Id) :=
  (analyze nodes edges roots).map fun facts =>
    let components := facts.components.insertionSort (· ≤ ·)
    let order := topologicalOrder facts.nodes facts.edges
    { facts with
      components
      cyclicComponents := components.filter (isCyclicComponent facts.edges)
      topologicalOrder := order
      maxDepth := order.map (maximumDepth facts.edges) }

/-- The classes of mutual reachability, each listed once, in ascending order. -/
structure Classes (nodes : List Id) (edges : List (StructuralEdge Id))
    (components : List (List Id)) : Prop where
  classes : ∀ component ∈ components, ∃ node ∈ nodes, ∀ other,
    other ∈ component ↔ Mutual (Edge edges) node other
  unique : ∀ node ∈ nodes, ∃! component, component ∈ components ∧ node ∈ component
  ascending : components.Pairwise (· < ·) ∧ ∀ component ∈ components, component.Pairwise (· < ·)

/-- What an analysis says of its graph. -/
structure StructuralAnalysis.Exact (analysis : StructuralAnalysis Id) (nodes : List Id)
    (edges : List (StructuralEdge Id)) (roots : List Id) : Prop where
  components : Classes nodes edges analysis.components
  cyclic : ∀ component, component ∈ analysis.cyclicComponents ↔
    component ∈ analysis.components ∧ ∃ node ∈ component, TransGen (Edge edges) node node
  reachable : ∀ node, node ∈ analysis.reachable ↔
    ∃ root ∈ roots, ReflTransGen (Edge edges) root node
  isSome_order : analysis.topologicalOrder.isSome ↔ analysis.cyclicComponents = []
  order : ∀ order ∈ analysis.topologicalOrder, order.Nodup ∧
    (∀ node, node ∈ order ↔ node ∈ nodes) ∧
    ∀ a b, Edge edges a b → order.idxOf a < order.idxOf b
  isSome_depth : analysis.maxDepth.isSome ↔ analysis.topologicalOrder.isSome
  depth : ∀ depth ∈ analysis.maxDepth,
    IsGreatest {n | ∃ path : List Id, path.IsChain (Edge edges) ∧ path.length - 1 = n} depth

theorem classes_of_joins (hjoins : Joins nodes edges) :
    Classes nodes edges ((stronglyConnectedComponents nodes edges).insertionSort (· ≤ ·)) := by
  obtain ⟨visited, hexact, hvisd⟩ := stronglyConnectedComponents_spec hjoins
  have hsort := perm_insertionSort (· ≤ ·) (stronglyConnectedComponents nodes edges)
  refine ⟨fun component hmem => ?_, fun node hnode => ?_, ?_, fun component hmem => ?_⟩
  · have hcpt := hsort.mem_iff.mp hmem
    obtain ⟨node, hnode⟩ := exists_mem_of_ne_nil component (hexact.ordered _ hcpt).1
    exact ⟨node, hexact.inside (hexact.visited _ hcpt hnode),
      fun other => mem_component_iff hjoins hcpt hnode⟩
  · obtain ⟨component, hcpt, hmem⟩ := hexact.covered node (hvisd hnode)
    refine ⟨component, ⟨hsort.mem_iff.mpr hcpt, hmem⟩, ?_⟩
    rintro other ⟨hother, hmem'⟩
    have : Std.Symm (@List.Disjoint Id) := ⟨fun _ _ h => h.symm⟩
    by_contra hne
    exact hexact.disjoint.forall (hsort.mem_iff.mp hother) hcpt hne hmem' hmem
  · have hdist : (stronglyConnectedComponents nodes edges).Nodup := by
      refine hexact.disjoint.imp_of_mem ?_
      rintro component _ hcpt - hdisjoint rfl
      obtain ⟨node, hnode⟩ := exists_mem_of_ne_nil component (hexact.ordered _ hcpt).1
      exact hdisjoint hnode hnode
    exact ((pairwise_insertionSort (· ≤ ·) _).and (hsort.nodup_iff.mpr hdist)).imp
      fun h => lt_of_le_of_ne h.1 h.2
  · exact (hexact.ordered component (hsort.mem_iff.mp hmem)).2

theorem mem_reachable_iff {roots : List Id} (hjoins : Joins nodes edges) (hroots : ∀ root ∈ roots, root ∈ nodes) :
    node ∈ search (successors edges) nodes roots [] ↔
      ∃ root ∈ roots, ReflTransGen (Edge edges) root node := by
  constructor
  · refine search_induction (P := fun node => ∃ root ∈ roots, ReflTransGen (Edge edges) root node)
      ?_ (fun root hroot => ⟨root, hroot, .refl⟩) (fun a ha => absurd ha not_mem_nil) node
    rintro a ⟨root, hroot, hpath⟩ b hb
    exact ⟨root, hroot, hpath.tail (mem_successors.mp hb)⟩
  · rintro ⟨root, hroot, hpath⟩
    have hnext : ∀ v, ∀ w ∈ successors edges v, w ∈ nodes := fun v w hw =>
      (hjoins _ (mem_successors.mp hw)).2
    induction hpath with
    | refl => exact pending_subset_search _ nodes roots [] root hroot (hroots root hroot)
    | tail _ hedge ih =>
      exact search_closed hnext roots [] (fun v hv => absurd hv not_mem_nil) _ ih _
        (mem_successors.mpr hedge)

/-- The analysis is exact. -/
theorem analyzeStructure_exact {roots : List Id} {analysis : StructuralAnalysis Id}
    (h : analyzeStructure nodes edges roots = .ok analysis) : analysis.Exact nodes edges roots := by
  unfold analyzeStructure at h
  obtain ⟨facts, hfacts, rfl⟩ := map_eq_ok.mp h
  obtain ⟨hclos, hroots, hnodes, hedges, hcpts, -, hreach⟩ := analyze_eq_ok hfacts
  have hjoins := joins_canonical hclos
  rw [← hnodes, ← hedges] at hjoins
  have hedge : Edge facts.edges = Edge edges := by rw [hedges, edge_canonical]
  have hnode : ∀ node, node ∈ facts.nodes ↔ node ∈ nodes := fun node => by
    rw [hnodes, OrdSet.mem_ofList]
  obtain ⟨hclasses, huniq, hascending⟩ := classes_of_joins hjoins
  obtain ⟨hisSome, hspec⟩ := topologicalOrder_spec hjoins
    (hnodes ▸ (OrdSet.ofList nodes).ordered.imp LT.lt.ne)
  simp only [hedge, hnode, ← hcpts] at hclasses huniq hascending hisSome hspec
  have hmem : ∀ order ∈ topologicalOrder facts.nodes facts.edges, ∀ node,
      node ∈ order ↔ node ∈ nodes :=
    fun order horder node => (hspec order horder).1.mem_iff.trans (hnode node)
  have hcycle : ∀ component, component ∈ (facts.components.insertionSort (· ≤ ·)).filter
      (isCyclicComponent facts.edges) ↔ component ∈ facts.components.insertionSort (· ≤ ·) ∧
        ∃ node ∈ component, TransGen (Edge edges) node node := by
    intro component
    rw [mem_filter]
    refine and_congr_right fun hsorted => ?_
    rw [isCyclicComponent_iff hjoins (hcpts ▸ (perm_insertionSort _ _).mem_iff.mp hsorted),
      hedge]
  refine ⟨⟨hclasses, huniq, hascending⟩, hcycle, fun node => ?_, ?_, fun order horder => ?_,
    by rw [Option.isSome_map], fun depth hsome => ?_⟩
  · rw [hreach, OrdSet.mem_ofList, mem_reachable_iff hjoins fun root hroot =>
      (hnode root).mpr (hroots root (OrdSet.mem_ofList.mp hroot))]
    simp only [OrdSet.mem_ofList, hedge]
  · rw [hisSome, eq_nil_iff_forall_not_mem]
    simp only [hcycle]
    constructor
    · rintro hnone component ⟨-, node, -, hnode⟩
      exact hnone node hnode
    · intro hnone node hnode
      obtain ⟨next, hedge, -⟩ := TransGen.head'_iff.mp hnode
      obtain ⟨component, ⟨hcpt, hin⟩, -⟩ := huniq node (hclos _ hedge).1
      exact hnone component ⟨hcpt, node, hin, hnode⟩
  · obtain ⟨-, hdist, hresp⟩ := hspec order horder
    exact ⟨hdist, hmem order horder, fun a b hedge =>
      hresp.idxOf_lt hedge ((hmem order horder b).mpr (hclos _ hedge).2)⟩
  · obtain ⟨order, horder, rfl⟩ := Option.map_eq_some_iff.mp hsome
    obtain ⟨-, hdist, hresp⟩ := hspec order horder
    have hgreatest := @maximumDepth_isGreatest _ _ order facts.edges
    rw [hedge] at hgreatest
    exact hgreatest hresp hdist fun a b hedge =>
      (hclos _ hedge).imp (hmem order horder a).mpr (hmem order horder b).mpr

/-- A cycle of two nodes, and one that leads into it. -/
theorem looped_exact : ∃ analysis, analyzeStructure [2, 0, 1] [⟨0, 1⟩, ⟨1, 2⟩, ⟨2, 1⟩] [1] =
    .ok analysis ∧ analysis.Exact [2, 0, 1] [⟨0, 1⟩, ⟨1, 2⟩, ⟨2, 1⟩] [1] :=
  ⟨_, rfl, analyzeStructure_exact rfl⟩

end OctaCity.Factory.Graph
