/-
  OctaCity.Pipeline.DagBuild

  The steps of `PipelineDag::build`.

  Main results: the steps of the construction, each with what it requires and
  what it returns (`canonicalize_eq_ok`, `canonicalNodes_eq_ok`,
  `requireCapabilities_eq_ok`, `canonicalEdges_eq_ok`).
-/
import OctaCity.Pipeline.DagOrder

namespace OctaCity.Pipeline

open Lib List PipelineNode
open Domain (canonicalizeJson canonicalizeJson_idempotent)

/-! ## Nodes -/

section

variable {floatText : FiniteFloat → String}

/-- The template is canonical JSON within its bound. -/
def TemplateFits (floatText : FiniteFloat → String) (template canonical : Json) : Prop :=
  canonicalizeJson template = .ok canonical ∧ canonical.asObject.isSome = true ∧
    canonical.size floatText ≤ maxPipelineNodeTemplateBytes

theorem validateTemplate_eq_ok {template : Json} : validateTemplate floatText template = .ok () ↔
      template.asObject.isSome = true ∧ template.size floatText ≤ maxPipelineNodeTemplateBytes := by
  unfold validateTemplate
  rw [guard_eq_ok]
  cases template.asObject <;> simp

theorem any_windows {α : Type} [LinearOrder α] [DecidableEq α] (values : List α) :
    (windows (values.insertionSort (· ≤ ·))).any (fun pair => pair.1 = pair.2) = true ↔
      ¬values.Nodup := by
  have hsort := pairwise_insertionSort (· ≤ ·) values
  have hnodup := @nodup_iff_windows α α _ id _ hsort
  rw [map_id, (perm_insertionSort (· ≤ ·) values).nodup_iff] at hnodup
  rw [hnodup, any_eq_true]
  simp

/-- The node with sorted capabilities and a canonical template. -/
structure PipelineNode.CanonicalForm (floatText : FiniteFloat → String)
    (node canonical : PipelineNode) : Prop where
  template : TemplateFits floatText node.template canonical.template
  eq : canonical = { node with
    requiredCapabilities := node.requiredCapabilities.insertionSort (· ≤ ·)
    template := canonical.template }

variable {canonical : PipelineNode}

theorem PipelineNode.canonicalize_eq_ok {node : PipelineNode} :
    node.canonicalize floatText = .ok canonical ↔
      node.requiredCapabilities.Nodup ∧ node.CanonicalForm floatText canonical := by
  unfold canonicalize
  rw [guard_eq_ok, any_windows, not_not]
  refine and_congr_right fun _ => ?_
  rw [bind_eq_ok]
  constructor
  · rintro ⟨template, htmpl, h⟩
    obtain ⟨hvalid, h⟩ := check_eq_ok.mp h
    cases h
    exact ⟨⟨mapError_eq_ok.mp htmpl, validateTemplate_eq_ok.mp hvalid⟩, rfl⟩
  · rintro ⟨⟨htmpl, hvalid⟩, h⟩
    refine ⟨canonical.template, mapError_eq_ok.mpr htmpl,
      check_eq_ok.mpr ⟨validateTemplate_eq_ok.mpr hvalid, ?_⟩⟩
    rw [h]

/-- A canonical node is its own canonical form. -/
theorem PipelineNode.canonicalize_idempotent {node : PipelineNode}
    (h : node.canonicalize floatText = .ok canonical) :
    canonical.canonicalize floatText = .ok canonical := by
  obtain ⟨hnodup, ⟨htmpl, hvalid⟩, heq⟩ := canonicalize_eq_ok.mp h
  have hsort : canonical.requiredCapabilities =
      node.requiredCapabilities.insertionSort (· ≤ ·) := by rw [heq]
  refine canonicalize_eq_ok.mpr ⟨?_, ⟨canonicalizeJson_idempotent htmpl, hvalid⟩, ?_⟩
  · rw [hsort]
    exact (perm_insertionSort _ _).nodup_iff.mpr hnodup
  · have hsame : canonical.requiredCapabilities.insertionSort (· ≤ ·) =
        canonical.requiredCapabilities := by
      rw [hsort]
      exact (pairwise_insertionSort _ _).insertionSort_eq
    rw [hsame]

/-- Nodes that differ in the order of their capabilities only. -/
structure PipelineNode.SameUpToOrder (node other : PipelineNode) : Prop where
  id : other.id = node.id
  name : other.name = node.name
  dependencyPolicy : other.dependencyPolicy = node.dependencyPolicy
  requiredCapabilities : other.requiredCapabilities.Perm node.requiredCapabilities
  template : other.template = node.template

theorem insertionSort_eq_of_perm {α : Type} [LinearOrder α] {as bs : List α} (h : as.Perm bs) :
    as.insertionSort (· ≤ ·) = bs.insertionSort (· ≤ ·) := by
  have hperm := (perm_insertionSort (· ≤ ·) as).trans
    (h.trans (perm_insertionSort (· ≤ ·) bs).symm)
  exact hperm.eq_of_pairwise (fun _ _ _ _ => le_antisymm) (pairwise_insertionSort _ as)
    (pairwise_insertionSort _ bs)

theorem PipelineNode.SameUpToOrder.canonicalize {node other : PipelineNode}
    (h : node.SameUpToOrder other) (hcanon : node.canonicalize floatText = .ok canonical) :
    other.canonicalize floatText = .ok canonical := by
  obtain ⟨hnodup, htmpl, heq⟩ := canonicalize_eq_ok.mp hcanon
  refine canonicalize_eq_ok.mpr
    ⟨h.requiredCapabilities.nodup_iff.mpr hnodup, by rw [h.template]; exact htmpl, ?_⟩
  rw [heq, insertionSort_eq_of_perm h.requiredCapabilities, ← h.id, ← h.name,
    ← h.dependencyPolicy]

/-- Nodes by identity. -/
def sortById (nodes : List PipelineNode) : List PipelineNode :=
  nodes.insertionSort fun left right => left.id ≤ right.id

theorem sortById_perm (nodes : List PipelineNode) : (sortById nodes).Perm nodes :=
  perm_insertionSort _ _

theorem sortById_sorted (nodes : List PipelineNode) :
    (sortById nodes).Pairwise fun left right => left.id ≤ right.id :=
  pairwise_insertionSort _ _

theorem sortById_sortById (nodes : List PipelineNode) : sortById (sortById nodes) = sortById nodes :=
  (sortById_sorted nodes).insertionSort_eq

/-- With one node for each identity, the order they come in does not matter. -/
theorem sortById_eq_of_perm {nodes others : List PipelineNode} (h : nodes.Perm others)
    (hnodup : (nodes.map (·.id)).Nodup) : sortById nodes = sortById others := by
  have hperm := (sortById_perm nodes).trans (h.trans (sortById_perm others).symm)
  refine hperm.eq_of_pairwise (fun left right hleft _ hle hge => ?_) (sortById_sorted nodes)
    (sortById_sorted others)
  have hnodes : ((sortById nodes).map (·.id)).Nodup :=
    ((sortById_perm nodes).map _).nodup_iff.mpr hnodup
  exact inj_on_of_nodup_map hnodes hleft (hperm.mem_iff.mpr ‹_›) (le_antisymm hle hge)

theorem canonicalNodes_eq_ok {nodes sorted : List PipelineNode} :
    canonicalNodes floatText nodes = .ok sorted ↔
      ∃ canonical, List.Forall₂ (fun node node' => node.canonicalize floatText = .ok node') nodes
          canonical ∧ (canonical.map (·.id)).Nodup ∧ sorted = sortById canonical := by
  unfold canonicalNodes
  rw [bind_eq_ok]
  refine exists_congr fun canonical => ?_
  rw [mapM_eq_ok]
  refine and_congr_right fun _ => ?_
  have hnodup := nodup_iff_windows (sortById_sorted canonical)
  rw [((sortById_perm canonical).map _).nodup_iff] at hnodup
  dsimp only
  split
  · rename_i pair hpair
    have hmem := mem_of_find?_eq_some hpair
    have hsame : pair.1.id = pair.2.id := by simpa using List.find?_some hpair
    constructor
    · exact nofun
    · rintro ⟨hdist, -⟩
      exact absurd hsame (hnodup.mp hdist pair hmem)
  · rename_i hnone
    have hdist : (canonical.map (·.id)).Nodup := by
      rw [hnodup]
      intro pair hpair
      simpa using List.find?_eq_none.mp hnone pair hpair
    rw [Except.ok.injEq, and_iff_right hdist]
    exact eq_comm

/-- Every capability that the nodes require is in the catalog. -/
def Supports (catalog : CapabilityCatalog) (nodes : List PipelineNode) : Prop :=
  ∀ node ∈ nodes, ∀ capability ∈ node.requiredCapabilities, catalog.supports capability = true

theorem requireCapabilities_eq_ok {capabilities : Option CapabilityCatalog}
    {nodes : List PipelineNode} : requireCapabilities capabilities nodes = .ok () ↔
      ∀ catalog, capabilities = some catalog → Supports catalog nodes := by
  cases capabilities with
  | none => exact iff_of_true rfl nofun
  | some catalog =>
    simp only [Option.some.injEq, forall_eq']
    unfold requireCapabilities
    refine forM_eq_ok.trans (forall₂_congr fun node _ => ?_)
    split
    · rename_i capability hfound
      have hmem := mem_of_find?_eq_some hfound
      have hmiss := List.find?_some hfound
      constructor
      · exact nofun
      · intro h
        rw [h capability hmem] at hmiss
        cases hmiss
    · rename_i hnone
      refine iff_of_true rfl fun capability hcap => ?_
      simpa using List.find?_eq_none.mp hnone capability hcap

end

/-! ## Edges -/

namespace NodeCounts

/-- The count of a node, zero where there is none. -/
def total (counts : NodeCounts) (identity : PipelineNodeId) : Nat :=
  (counts.degree identity).getD 0

theorem tally_snd (counts : NodeCounts) (identity : PipelineNodeId) :
    (counts.tally identity).2 = counts.total identity + 1 := rfl

theorem total_tally (counts : NodeCounts) (identity other : PipelineNodeId) :
    (counts.tally identity).1.total other =
      counts.total other + if identity = other then 1 else 0 := by
  show (degree (counts.put ⟨identity, counts.total identity + 1⟩) other).getD 0 = _
  rw [degree_put]
  by_cases h : other = identity
  · subst h
    simp
  · rw [if_neg h, if_neg (Ne.symm h)]
    rfl

end NodeCounts

/-- The edge joins two different nodes. -/
def PipelineEdge.JoinsTwo (identities : List PipelineNodeId) (edge : PipelineEdge) : Prop :=
  edge.predecessor ≠ edge.dependent ∧ edge.predecessor ∈ identities ∧ edge.dependent ∈ identities

variable {identities : List PipelineNodeId} {edges : List PipelineEdge}

theorem contains_ofList {identity : PipelineNodeId} :
    (OrdSet.ofList identities).contains identity = true ↔ identity ∈ identities := by
  rw [Table.contains_iff, ← OrdSet.mem_ofList]
  exact ⟨fun ⟨_, hmem, heq⟩ => heq ▸ hmem, fun h => ⟨identity, h, rfl⟩⟩

theorem Fans.add_eq_ok {fans fans' : Fans} {edge : PipelineEdge} :
    fans.add (OrdSet.ofList identities) edge = .ok fans' ↔
      edge.JoinsTwo identities ∧ fans.fanIn.total edge.dependent < maxPipelineFanIn ∧
        fans.fanOut.total edge.predecessor < maxPipelineFanOut ∧
        fans' = ⟨(fans.fanIn.tally edge.dependent).1, (fans.fanOut.tally edge.predecessor).1⟩ := by
  unfold add PipelineEdge.JoinsTwo
  simp only [guard_eq_ok, contains_ofList, NodeCounts.tally_snd, not_not, Except.ok.injEq, ne_eq,
    gt_iff_lt, not_lt, Nat.succ_le_iff]
  constructor
  · rintro ⟨hself, hpred, hdepd, hin, hout, rfl⟩
    exact ⟨⟨hself, hpred, hdepd⟩, hin, hout, rfl⟩
  · rintro ⟨⟨hself, hpred, hdepd⟩, hin, hout, rfl⟩
    exact ⟨hself, hpred, hdepd, hin, hout, rfl⟩

/-- The loop over the edges bounds the fans of all nodes. -/
theorem Fans.foldlM_add_isOk (edges : List PipelineEdge)
    (fans : Fans) (hfanIn : ∀ identity, fans.fanIn.total identity ≤ maxPipelineFanIn)
    (hfanOut : ∀ identity, fans.fanOut.total identity ≤ maxPipelineFanOut) :
    (∃ fans', edges.foldlM (Fans.add (OrdSet.ofList identities)) fans = .ok fans') ↔
      (∀ edge ∈ edges, edge.JoinsTwo identities) ∧
      (∀ identity, fans.fanIn.total identity + edges.countP (·.dependent = identity) ≤
        maxPipelineFanIn) ∧
      ∀ identity, fans.fanOut.total identity + edges.countP (·.predecessor = identity) ≤
        maxPipelineFanOut := by
  induction edges generalizing fans with
  | nil =>
    refine iff_of_true ⟨fans, rfl⟩ ⟨by simp, ?_, ?_⟩
    · simpa using hfanIn
    · simpa using hfanOut
  | cons edge edges ih =>
    have hin : ∀ identity, (fans.fanIn.tally edge.dependent).1.total identity +
        edges.countP (·.dependent = identity) =
          fans.fanIn.total identity + (edge :: edges).countP (·.dependent = identity) := by
      intro identity
      rw [NodeCounts.total_tally, countP_cons]
      simp only [decide_eq_true_eq]
      omega
    have hout : ∀ identity, (fans.fanOut.tally edge.predecessor).1.total identity +
        edges.countP (·.predecessor = identity) =
          fans.fanOut.total identity + (edge :: edges).countP (·.predecessor = identity) := by
      intro identity
      rw [NodeCounts.total_tally, countP_cons]
      simp only [decide_eq_true_eq]
      omega
    have hih := fun hbelowIn hbelowOut =>
      ih ⟨(fans.fanIn.tally edge.dependent).1, (fans.fanOut.tally edge.predecessor).1⟩
        (fun identity => by
          show (fans.fanIn.tally edge.dependent).1.total identity ≤ _
          rw [NodeCounts.total_tally]
          split
          · rename_i h
            exact h ▸ Nat.succ_le_of_lt hbelowIn
          · exact hfanIn identity)
        (fun identity => by
          show (fans.fanOut.tally edge.predecessor).1.total identity ≤ _
          rw [NodeCounts.total_tally]
          split
          · rename_i h
            exact h ▸ Nat.succ_le_of_lt hbelowOut
          · exact hfanOut identity)
    simp only [hin, hout] at hih
    rw [foldlM_cons]
    constructor
    · rintro ⟨fans', h⟩
      obtain ⟨next, hadd, h⟩ := bind_eq_ok.mp h
      obtain ⟨hjoins, hbelowIn, hbelowOut, rfl⟩ := add_eq_ok.mp hadd
      obtain ⟨hrest, hfans⟩ := (hih hbelowIn hbelowOut).mp ⟨fans', h⟩
      exact ⟨forall_mem_cons.mpr ⟨hjoins, hrest⟩, hfans⟩
    · rintro ⟨hjoins, hfans⟩
      obtain ⟨hjoins, hrest⟩ := forall_mem_cons.mp hjoins
      have hbelowIn : fans.fanIn.total edge.dependent < maxPipelineFanIn := by
        have hle := hfans.1 edge.dependent
        rw [countP_cons_of_pos (by simp)] at hle
        omega
      have hbelowOut : fans.fanOut.total edge.predecessor < maxPipelineFanOut := by
        have hle := hfans.2 edge.predecessor
        rw [countP_cons_of_pos (by simp)] at hle
        omega
      obtain ⟨fans', h⟩ := (hih hbelowIn hbelowOut).mpr ⟨hrest, hfans⟩
      exact ⟨fans', bind_eq_ok.mpr ⟨_, add_eq_ok.mpr ⟨hjoins, hbelowIn, hbelowOut, rfl⟩, h⟩⟩

/-- A graph of one node for each identity, without repeated edges, loops and cycles, within the
    bounds on edges of one node. -/
structure ProperGraph (identities : List PipelineNodeId) (edges : List PipelineEdge) : Prop where
  nodesOnce : identities.Nodup
  edgesOnce : edges.Nodup
  joins : ∀ edge ∈ edges, edge.JoinsTwo identities
  fanIn : ∀ identity, edges.countP (·.dependent = identity) ≤ maxPipelineFanIn
  fanOut : ∀ identity, edges.countP (·.predecessor = identity) ≤ maxPipelineFanOut
  acyclic : ∀ identity, ¬Relation.TransGen (Precedes edges) identity identity

theorem ProperGraph.perm {others : List PipelineNodeId}
    {edges' : List PipelineEdge} (h : ProperGraph identities edges)
    (hnodes : identities.Perm others) (hedges : edges.Perm edges') : ProperGraph others edges' where
  nodesOnce := hnodes.nodup_iff.mp h.nodesOnce
  edgesOnce := hedges.nodup_iff.mp h.edgesOnce
  joins edge hedge := by
    obtain ⟨hself, hpred, hdepd⟩ := h.joins edge (hedges.mem_iff.mpr hedge)
    exact ⟨hself, hnodes.mem_iff.mp hpred, hnodes.mem_iff.mp hdepd⟩
  fanIn identity := by
    rw [← hedges.countP_eq]
    exact h.fanIn identity
  fanOut identity := by
    rw [← hedges.countP_eq]
    exact h.fanOut identity
  acyclic identity hcycle := by
    have hback : ∀ a b, Precedes edges' a b → Precedes edges a b :=
      fun _ _ hedge => hedges.mem_iff.mpr hedge
    exact h.acyclic identity (Relation.TransGen.mono hback _ _ hcycle)

theorem ProperGraph.joinsNodes (h : ProperGraph identities edges) : Joins identities edges :=
  fun edge hedge => (h.joins edge hedge).2

theorem canonicalEdges_eq_ok {nodes : List PipelineNode} {sorted : List PipelineEdge} :
    canonicalEdges nodes edges = .ok sorted ↔
      edges.Nodup ∧ (∀ edge ∈ edges, edge.JoinsTwo (nodes.map (·.id))) ∧
        (∀ identity, edges.countP (·.dependent = identity) ≤ maxPipelineFanIn) ∧
        (∀ identity, edges.countP (·.predecessor = identity) ≤ maxPipelineFanOut) ∧
        sorted = edges.insertionSort (· ≤ ·) := by
  have hperm := perm_insertionSort (· ≤ ·) edges
  have hzero : ∀ identity, NodeCounts.total (Table.empty : NodeCounts) identity = 0 := fun _ => rfl
  have hfold := @Fans.foldlM_add_isOk (nodes.map (·.id)) (edges.insertionSort (· ≤ ·))
    ⟨Table.empty, Table.empty⟩ (fun _ => Nat.zero_le _) (fun _ => Nat.zero_le _)
  simp only [hzero, Nat.zero_add, hperm.countP_eq, hperm.mem_iff] at hfold
  unfold canonicalEdges
  rw [guard_eq_ok, any_windows, not_not, bind_eq_ok]
  refine and_congr_right fun _ => ?_
  constructor
  · rintro ⟨fans, h, hsort⟩
    obtain ⟨hjoins, hin, hout⟩ := hfold.mp ⟨fans, h⟩
    exact ⟨hjoins, hin, hout, (Except.ok.inj hsort).symm⟩
  · rintro ⟨hjoins, hin, hout, rfl⟩
    obtain ⟨fans, h⟩ := hfold.mpr ⟨hjoins, hin, hout⟩
    exact ⟨fans, h, rfl⟩

/-! # Canonical graphs

What `PipelineDag::build` accepts and what it returns.

Main results:
* `PipelineDag.build_eq_ok`: the construction as one condition;
* `PipelineDag.construction_is_canonical`: when it succeeds; and that the
  DAG does not depend on any order of its input, is constructed again as
  the same DAG, and is sorted without a panic;
* `PipelineDag.repeated_capability_refused`: the bounds alone are not enough.
-/

variable {floatText : FiniteFloat → String} {nodes : List PipelineNode}
  {edges : List PipelineEdge} {capabilities : Option CapabilityCatalog} {dag : PipelineDag}

namespace PipelineDag

/-- The DAG is the canonical form of the input, and within its bounds. -/
structure Builds (floatText : FiniteFloat → String) (nodes : List PipelineNode)
    (edges : List PipelineEdge) (capabilities : Option CapabilityCatalog) (dag : PipelineDag) :
    Prop where
  nonempty : nodes ≠ []
  nodeBound : nodes.length ≤ maxPipelineNodes
  edgeBound : edges.length ≤ maxPipelineEdges
  canonicalNodes : ∃ canonical, List.Forall₂ (fun node node' => node.canonicalize floatText = .ok node')
    nodes canonical ∧ dag.nodes = sortById canonical
  supported : ∀ catalog, capabilities = some catalog → Supports catalog dag.nodes
  canonicalEdges : dag.edges = edges.insertionSort (· ≤ ·)
  graph : ProperGraph (dag.nodes.map (·.id)) edges
  snapshot : dag.serialize.size floatText ≤ maxPipelineSnapshotBytes

theorem build_eq_ok : build floatText nodes edges capabilities = .ok dag ↔
    Builds floatText nodes edges capabilities dag := by
  unfold build
  simp only [guard_eq_ok, bind_eq_ok, mapError_eq_ok, canonicalNodes_eq_ok, canonicalEdges_eq_ok,
    List.isEmpty_iff, gt_iff_lt, not_lt, Except.ok.injEq]
  constructor
  · rintro ⟨hne, hnodeBound, hedgeBound, sorted, ⟨canonical, hcanon, hnodup, rfl⟩,
      ⟨⟩, hsupp, sortedEdges, ⟨hedgesNodup, hjoins, hfanIn, hfanOut, rfl⟩, ordered, htopo,
      hsnap, rfl⟩
    have hperm := perm_insertionSort (· ≤ ·) edges
    have hdist : ((sortById canonical).map (·.id)).Nodup :=
      ((sortById_perm canonical).map _).nodup_iff.mpr hnodup
    have hjoins' : Joins ((sortById canonical).map (·.id)) (edges.insertionSort (· ≤ ·)) :=
      fun edge hedge => (hjoins edge (hperm.mem_iff.mp hedge)).2
    have hacyclic := (topologicalIdentities_isOk hdist hjoins').mp ⟨ordered, htopo⟩
    have hsort : ProperGraph ((sortById canonical).map (·.id)) (edges.insertionSort (· ≤ ·)) :=
      ⟨hdist, hperm.nodup_iff.mpr hedgesNodup,
        fun edge hedge => hjoins edge (hperm.mem_iff.mp hedge),
        fun identity => by rw [hperm.countP_eq]; exact hfanIn identity,
        fun identity => by rw [hperm.countP_eq]; exact hfanOut identity, hacyclic⟩
    exact ⟨hne, hnodeBound, hedgeBound, ⟨canonical, hcanon, rfl⟩,
      requireCapabilities_eq_ok.mp hsupp, rfl,
      hsort.perm (.refl _) hperm, hsnap⟩
  · intro h
    obtain ⟨canonical, hcanon, hnodes⟩ := h.canonicalNodes
    have hperm := perm_insertionSort (· ≤ ·) edges
    have hsort := h.graph.perm (.refl _) hperm.symm
    obtain ⟨ordered, htopo⟩ := (topologicalIdentities_isOk hsort.nodesOnce
      hsort.joinsNodes).mpr hsort.acyclic
    have hnodup : (canonical.map (·.id)).Nodup := by
      have hdist := h.graph.nodesOnce
      rw [hnodes] at hdist
      exact ((sortById_perm canonical).map _).nodup_iff.mp hdist
    refine ⟨h.nonempty, h.nodeBound, h.edgeBound, dag.nodes, ⟨canonical, hcanon, hnodup, hnodes⟩,
      (), requireCapabilities_eq_ok.mpr h.supported, dag.edges,
      ⟨h.graph.edgesOnce, h.graph.joins, h.graph.fanIn, h.graph.fanOut, h.canonicalEdges⟩, ordered, ?_,
      h.snapshot, rfl⟩
    rw [h.canonicalEdges]
    exact htopo

/-- A construction that fails fails with an error. -/
theorem build_error {failure : Failure} (h : build floatText nodes edges capabilities =
    .error failure) : ∃ error, failure = .error error := by
  have hlift : ∀ {α : Type} {x : Except PipelineError α}, x.mapError Failure.error =
      .error failure → ∃ error, failure = .error error := by
    intro α x hx
    obtain ⟨error, -, rfl⟩ := mapError_eq_error.mp hx
    exact ⟨error, rfl⟩
  unfold build at h
  split at h
  · exact ⟨_, (Except.error.inj h).symm⟩
  split at h
  · exact ⟨_, (Except.error.inj h).symm⟩
  split at h
  · exact ⟨_, (Except.error.inj h).symm⟩
  rcases bind_eq_error.mp h with h | ⟨sorted, hsort, h⟩
  · exact hlift h
  rcases bind_eq_error.mp h with h | ⟨-, -, h⟩
  · exact hlift h
  rcases bind_eq_error.mp h with h | ⟨sortedEdges, hedges, h⟩
  · exact hlift h
  obtain ⟨-, hjoins, -, -, rfl⟩ := canonicalEdges_eq_ok.mp (mapError_eq_ok.mp hedges)
  have hjoins' : Joins (sorted.map (·.id)) (edges.insertionSort (· ≤ ·)) := fun edge hedge =>
    (hjoins edge ((perm_insertionSort (· ≤ ·) edges).mem_iff.mp hedge)).2
  rcases bind_eq_error.mp h with h | ⟨ordered, -, h⟩
  · obtain ⟨ordered, -, htopo⟩ := topologicalIdentities_eq hjoins'
    rw [htopo] at h
    split at h
    · exact ⟨_, (Except.error.inj h).symm⟩
    · cases h
  · dsimp only at h
    split at h
    · exact ⟨_, (Except.error.inj h).symm⟩
    · cases h

/-! ## The order of the input -/

/-- Another order of the nodes, and of the capabilities of each. -/
def Reordered (nodes others : List PipelineNode) : Prop :=
  ∃ middle, List.Forall₂ PipelineNode.SameUpToOrder nodes middle ∧ middle.Perm others

theorem forall₂_canonicalize {middle canonical : List PipelineNode}
    (hsame : List.Forall₂ PipelineNode.SameUpToOrder nodes middle)
    (h : List.Forall₂ (fun node node' => node.canonicalize floatText = .ok node') nodes canonical) :
    List.Forall₂ (fun node node' => node.canonicalize floatText = .ok node') middle canonical := by
  induction hsame generalizing canonical with
  | nil =>
    cases h
    exact .nil
  | cons hhead _ ih =>
    cases h with
    | cons hcanon htail => exact .cons (hhead.canonicalize hcanon) (ih htail)

/-- Any order of the input gives the same DAG. -/
theorem Builds.reorder (h : Builds floatText nodes edges capabilities dag)
    {others : List PipelineNode} {edges' : List PipelineEdge} (hnodes : Reordered nodes others)
    (hedges : edges.Perm edges') : Builds floatText others edges' capabilities dag := by
  obtain ⟨middle, hsame, hperm⟩ := hnodes
  obtain ⟨canonical, hcanon, hsort⟩ := h.canonicalNodes
  have hlen : others.length = nodes.length := by
    rw [← hperm.length_eq, hsame.length_eq]
  obtain ⟨canonical', hcanon', hperm'⟩ :=
    perm_comp_forall₂ hperm.symm (forall₂_canonicalize hsame hcanon)
  have hnodup : (canonical'.map (·.id)).Nodup := by
    have hdist := h.graph.nodesOnce
    rw [hsort, ((sortById_perm canonical).map _).nodup_iff] at hdist
    exact (hperm'.map _).nodup_iff.mpr hdist
  refine ⟨?_, by rw [hlen]; exact h.nodeBound, by rw [← hedges.length_eq]; exact h.edgeBound,
    ⟨canonical', hcanon', ?_⟩, h.supported, ?_, h.graph.perm (.refl _) hedges, h.snapshot⟩
  · intro hnil
    rw [hnil, length_nil] at hlen
    exact h.nonempty (length_eq_zero_iff.mp hlen.symm)
  · rw [hsort, sortById_eq_of_perm hperm' hnodup]
  · rw [h.canonicalEdges, insertionSort_eq_of_perm hedges]

theorem Builds.canonicalize_self (h : Builds floatText nodes edges capabilities dag)
    {node : PipelineNode} (hnode : node ∈ dag.nodes) : node.canonicalize floatText = .ok node := by
  obtain ⟨canonical, hcanon, hsort⟩ := h.canonicalNodes
  rw [hsort, (sortById_perm canonical).mem_iff] at hnode
  obtain ⟨original, -, horig⟩ := forall₂_exists_left hcanon hnode
  exact canonicalize_idempotent horig

/-- A DAG is constructed again from its own nodes and edges, against any catalog with the
    capabilities it requires. -/
theorem Builds.again (h : Builds floatText nodes edges capabilities dag)
    {current : Option CapabilityCatalog}
    (hsupp : ∀ catalog, current = some catalog → Supports catalog dag.nodes) :
    Builds floatText dag.nodes dag.edges current dag := by
  obtain ⟨canonical, hcanon, hsort⟩ := h.canonicalNodes
  have hperm := perm_insertionSort (· ≤ ·) edges
  have hlen : dag.nodes.length = nodes.length := by
    rw [hsort, (sortById_perm canonical).length_eq, hcanon.length_eq]
  refine ⟨?_, by rw [hlen]; exact h.nodeBound, ?_,
    ⟨dag.nodes, forall₂_same.mpr fun node hnode => h.canonicalize_self hnode, ?_⟩,
    hsupp, ?_, ?_, h.snapshot⟩
  · intro hnil
    rw [hnil, length_nil] at hlen
    exact h.nonempty (length_eq_zero_iff.mp hlen.symm)
  · rw [h.canonicalEdges, hperm.length_eq]
    exact h.edgeBound
  · rw [hsort, sortById_sortById]
  · rw [h.canonicalEdges]
    exact (pairwise_insertionSort _ _).insertionSort_eq.symm
  · rw [h.canonicalEdges]
    exact h.graph.perm (.refl _) hperm.symm

end PipelineDag

/-! ## The stored snapshot -/

theorem PipelineEdge.deserialize_serialize (edge : PipelineEdge) :
    deserialize edge.serialize = some edge := by
  have hflds : decodeFields ["predecessor", "dependent"] edge.serialize =
      some [.string edge.predecessor.value, .string edge.dependent.value] := by
    unfold decodeFields serialize
    simp only
    rw [if_pos]
    · rfl
    · simp
  unfold deserialize
  rw [hflds]
  simp only [PipelineNodeId.deserialize_value, Option.bind_eq_bind, Option.bind_some]

namespace PipelineDag

theorem Wire.deserialize_serialize (dag : PipelineDag) : Wire.deserialize dag.serialize =
      some ⟨pipelineSnapshotSchemaVersion.toNat, dag.nodes, dag.edges⟩ := by
  have hflds : decodeFields ["schema_version", "nodes", "edges"] dag.serialize =
      some [.number (.posInt pipelineSnapshotSchemaVersion),
        .array (dag.nodes.map (·.serialize)), .array (dag.edges.map (·.serialize))] := by
    unfold decodeFields PipelineDag.serialize
    simp only
    rw [if_pos]
    · rfl
    · simp
  have hnodes := mapM_deserialize PipelineNode.deserialize_serialize dag.nodes
  have hedges := mapM_deserialize PipelineEdge.deserialize_serialize dag.edges
  unfold Wire.deserialize
  rw [hflds]
  simp only [Json.asArray, Option.bind_eq_bind, Option.bind_some, hnodes, hedges]
  rfl

theorem Builds.rebuild (h : Builds floatText nodes edges capabilities dag) :
    build floatText dag.nodes dag.edges none = .ok dag :=
  build_eq_ok.mpr (h.again nofun)

/-- The snapshot of a constructed DAG is decoded as that DAG. -/
theorem Builds.deserialize_serialize (h : Builds floatText nodes edges capabilities dag) :
    deserialize floatText dag.serialize = .ok dag := by
  unfold deserialize
  rw [Wire.deserialize_serialize]
  show (build floatText dag.nodes dag.edges none).mapError DecodeError.rejected = _
  rw [h.rebuild]
  rfl

/-! ## The topological order -/

/-- The identities in topological order: all of them, each after what it depends on, and in the
    least such order. -/
structure LeastTopological (dag : PipelineDag) (ordered : List PipelineNode) : Prop where
  perm : ordered.Perm dag.nodes
  respects : Respects (Precedes dag.edges) (ordered.map (·.id))
  least : ∀ other : List PipelineNode, other.Perm dag.nodes →
    Respects (Precedes dag.edges) (other.map (·.id)) → ordered.map (·.id) ≤ other.map (·.id)

theorem find_id {nodes : List PipelineNode} (hnodup : (nodes.map (·.id)).Nodup)
    {node : PipelineNode} (hnode : node ∈ nodes) : nodes.find? (·.id = node.id) = some node := by
  have hsome : (nodes.find? (·.id = node.id)).isSome = true :=
    List.find?_isSome.mpr ⟨node, hnode, by simp⟩
  obtain ⟨found, hfound⟩ := Option.isSome_iff_exists.mp hsome
  have hsame : found.id = node.id := by simpa using List.find?_some hfound
  rw [hfound, inj_on_of_nodup_map hnodup (mem_of_find?_eq_some hfound) hnode hsame]

theorem mapM_find {nodes : List PipelineNode} (hnodup : (nodes.map (·.id)).Nodup) :
    ∀ {ordered : List PipelineNodeId}, ordered ⊆ nodes.map (·.id) →
      ∃ found : List PipelineNode, found ⊆ nodes ∧ found.map (·.id) = ordered ∧
        ordered.mapM (fun identity => okOr (nodes.find? (·.id = identity)) Failure.panic) = .ok found
  | [], _ => ⟨[], nil_subset _, rfl, rfl⟩
  | identity :: rest, hsub => by
    obtain ⟨hhead, htail⟩ := cons_subset.mp hsub
    obtain ⟨node, hnode, rfl⟩ := mem_map.mp hhead
    obtain ⟨found, hfound, hids, hmapM⟩ := mapM_find hnodup htail
    refine ⟨node :: found, cons_subset.mpr ⟨hnode, hfound⟩, by rw [map_cons, hids], ?_⟩
    rw [mapM_cons, find_id hnodup hnode, hmapM]
    rfl

/-- A constructed DAG is sorted without a panic. -/
theorem Builds.topologicalOrder_eq (h : Builds floatText nodes edges capabilities dag) :
    ∃ ordered, dag.topologicalOrder = .ok ordered ∧ dag.LeastTopological ordered := by
  have hgraph : ProperGraph (dag.nodes.map (·.id)) dag.edges := by
    rw [h.canonicalEdges]
    exact h.graph.perm (.refl _) (perm_insertionSort _ _).symm
  obtain ⟨identities, hidentities⟩ :=
    (topologicalIdentities_isOk hgraph.nodesOnce hgraph.joinsNodes).mpr hgraph.acyclic
  have hgreedy := greedy_of_topologicalIdentities hgraph.joinsNodes hidentities
  obtain ⟨ordered, hsub, rfl, hfound⟩ := mapM_find hgraph.nodesOnce hgreedy.subset
  have hperm : (ordered.map (·.id)).Perm (dag.nodes.map (·.id)) :=
    (hgreedy.perm_iff hgraph.nodesOnce fun _ _ hedge => hgraph.joinsNodes _ hedge).mpr hgraph.acyclic
  have hstart : Respects (Precedes dag.edges) [] := by
    intro front x rest heq
    simp at heq
  refine ⟨ordered, ?_, ?_, by simpa using hgreedy.respects hstart, fun other hother hresp => ?_⟩
  · unfold topologicalOrder
    rw [hidentities]
    exact hfound
  · have hnodup : ordered.Nodup := (hperm.nodup_iff.mpr hgraph.nodesOnce).of_map _
    refine (subperm_of_subset hnodup hsub).perm_of_length_le ?_
    simpa using hperm.length_eq.ge
  · exact hgreedy.le_of_respects (hother.map _) hgraph.nodesOnce hresp

/-! ## The construction as a whole -/

/-- The bounds on the size of the input and of its snapshot, on the templates and on the fans of
    a node, over a graph of distinct nodes and edges without loops and cycles. -/
structure WithinBounds (floatText : FiniteFloat → String) (nodes : List PipelineNode)
    (edges : List PipelineEdge) : Prop where
  nonempty : nodes ≠ []
  nodeBound : nodes.length ≤ maxPipelineNodes
  edgeBound : edges.length ≤ maxPipelineEdges
  graph : ProperGraph (nodes.map (·.id)) edges
  snapshot : ∃ canonical, List.Forall₂ (PipelineNode.CanonicalForm floatText) nodes canonical ∧
    (PipelineDag.mk (sortById canonical) (edges.insertionSort (· ≤ ·))).serialize.size floatText ≤
      maxPipelineSnapshotBytes

/-- No node requires a capability twice, and the catalog has them all. -/
structure Requirable (capabilities : Option CapabilityCatalog) (nodes : List PipelineNode) :
    Prop where
  once : ∀ node ∈ nodes, node.requiredCapabilities.Nodup
  supported : ∀ catalog, capabilities = some catalog → Supports catalog nodes

section

variable {canonical : List PipelineNode}
  (h : List.Forall₂ (PipelineNode.CanonicalForm floatText) nodes canonical)

include h

theorem supports_canonical {catalog : CapabilityCatalog} :
    Supports catalog (sortById canonical) ↔ Supports catalog nodes := by
  have hsame : ∀ {node node' : PipelineNode}, node.CanonicalForm floatText node' →
      ∀ capability, capability ∈ node'.requiredCapabilities ↔
        capability ∈ node.requiredCapabilities := by
    intro node node' hform capability
    rw [hform.eq]
    exact (perm_insertionSort (· ≤ ·) _).mem_iff
  constructor
  · intro hsupports node hnode capability hcap
    obtain ⟨node', hnode', hform⟩ := forall₂_exists_right h hnode
    exact hsupports node' ((sortById_perm canonical).mem_iff.mpr hnode') capability
      ((hsame hform capability).mpr hcap)
  · intro hsupports node' hnode' capability hcap
    obtain ⟨node, hnode, hform⟩ :=
      forall₂_exists_left h ((sortById_perm canonical).mem_iff.mp hnode')
    exact hsupports node hnode capability ((hsame hform capability).mp hcap)

theorem canonical_ids : ((sortById canonical).map (·.id)).Perm (nodes.map (·.id)) := by
  have hsame : canonical.map (·.id) = nodes.map (·.id) := by
    induction h with
    | nil => rfl
    | cons hhead _ ih => rw [map_cons, map_cons, ih, hhead.eq]
  rw [← hsame]
  exact (sortById_perm canonical).map _

end

/-- The construction succeeds exactly on what keeps the bounds and can be required. -/
theorem build_isOk : (∃ dag, build floatText nodes edges capabilities = .ok dag) ↔
    WithinBounds floatText nodes edges ∧ Requirable capabilities nodes := by
  constructor
  · rintro ⟨dag, hbuild⟩
    have h := build_eq_ok.mp hbuild
    obtain ⟨canonical, hcanon, hnodes⟩ := h.canonicalNodes
    have hform : List.Forall₂ (PipelineNode.CanonicalForm floatText) nodes canonical :=
      hcanon.imp fun _ _ hnode => (canonicalize_eq_ok.mp hnode).2
    have hsnap := h.snapshot
    have hgraph := h.graph
    have hsupp := h.supported
    rw [show dag = ⟨dag.nodes, dag.edges⟩ from rfl, h.canonicalEdges, hnodes] at hsnap
    rw [hnodes] at hgraph hsupp
    refine ⟨⟨h.nonempty, h.nodeBound, h.edgeBound, hgraph.perm (canonical_ids hform) (.refl _),
      canonical, hform, hsnap⟩, fun node hnode => ?_, fun catalog hcatalog =>
      (supports_canonical hform).mp (hsupp catalog hcatalog)⟩
    obtain ⟨node', -, hnode'⟩ := forall₂_exists_right hcanon hnode
    exact (canonicalize_eq_ok.mp hnode').1
  · rintro ⟨h, hrequirable⟩
    obtain ⟨canonical, hform, hsnap⟩ := h.snapshot
    refine ⟨⟨sortById canonical, edges.insertionSort (· ≤ ·)⟩, build_eq_ok.mpr
      ⟨h.nonempty, h.nodeBound, h.edgeBound, ⟨canonical, ?_, rfl⟩, fun catalog hcatalog =>
      (supports_canonical hform).mpr (hrequirable.supported catalog hcatalog), rfl,
      h.graph.perm (canonical_ids hform).symm (.refl _), hsnap⟩⟩
    have honce := hrequirable.once
    clear hsnap hrequirable h
    induction hform with
    | nil => exact .nil
    | cons hhead _ ih =>
      obtain ⟨hnodup, hrest⟩ := forall_mem_cons.mp honce
      exact .cons (canonicalize_eq_ok.mpr ⟨hnodup, hhead⟩) (ih hrest)

/-- What is built does not depend on any order of the input, is built again from its own nodes and
    edges, against a catalog that has what it requires, and from its snapshot, and is sorted. -/
structure Canonical (floatText : FiniteFloat → String) (nodes : List PipelineNode)
    (edges : List PipelineEdge) (capabilities : Option CapabilityCatalog) (dag : PipelineDag) :
    Prop where
  reorder : ∀ others edges', Reordered nodes others → edges.Perm edges' →
    build floatText others edges' capabilities = .ok dag
  rebuild : build floatText dag.nodes dag.edges none = .ok dag
  validate : dag.validate floatText = .ok ()
  forPublication : ∀ catalog, Supports catalog dag.nodes →
    dag.forPublication floatText catalog = .ok dag
  current : ∀ catalog, capabilities = some catalog → Supports catalog dag.nodes
  decode : deserialize floatText dag.serialize = .ok dag
  topological : ∃ ordered, dag.topologicalOrder = .ok ordered ∧ dag.LeastTopological ordered

theorem Builds.canonical (h : Builds floatText nodes edges capabilities dag) :
    Canonical floatText nodes edges capabilities dag where
  reorder _ _ hnodes hedges := build_eq_ok.mpr (h.reorder hnodes hedges)
  rebuild := h.rebuild
  validate := by
    unfold PipelineDag.validate
    rw [h.rebuild]
    rfl
  forPublication catalog hsupports := build_eq_ok.mpr (h.again fun _ hcatalog =>
    Option.some.inj hcatalog ▸ hsupports)
  current := h.supported
  decode := h.deserialize_serialize
  topological := h.topologicalOrder_eq

/-- Construction is exact and canonical, and never panics. -/
theorem construction_is_canonical (floatText : FiniteFloat → String) (nodes : List PipelineNode)
    (edges : List PipelineEdge) (capabilities : Option CapabilityCatalog) :
    ((∃ dag, build floatText nodes edges capabilities = .ok dag) ↔
      WithinBounds floatText nodes edges ∧ Requirable capabilities nodes) ∧
    (∀ dag, build floatText nodes edges capabilities = .ok dag →
      Canonical floatText nodes edges capabilities dag) ∧
    ∀ failure, build floatText nodes edges capabilities = .error failure →
      ∃ error, failure = .error error :=
  ⟨build_isOk, fun _ hbuild => (build_eq_ok.mp hbuild).canonical, fun _ => build_error⟩

namespace Sample

def shell : ExecutionCapability := ⟨"shell", by decide⟩

def twice : PipelineNode :=
  { id := ⟨"build", by decide⟩, name := ⟨"Build", by decide⟩, dependencyPolicy := .allSucceeded
    requiredCapabilities := [shell, shell], template := .object [] }

end Sample

/-- A capability listed twice is refused, although all bounds are kept. -/
theorem repeated_capability_refused :
    WithinBounds (fun _ => "") [Sample.twice] [] ∧
      ∀ dag, build (fun _ => "") [Sample.twice] [] none ≠ .ok dag := by
  refine ⟨⟨by simp, by decide, by decide, ?_, [Sample.twice], ?_, by decide +kernel⟩, fun dag hbuild => ?_⟩
  · refine ⟨by simp, by simp, by simp, by simp, by simp, fun identity hcycle => ?_⟩
    obtain ⟨other, hedge, -⟩ := Relation.TransGen.head'_iff.mp hcycle
    cases hedge
  · exact .cons ⟨⟨by rfl, rfl, by decide⟩, by rfl⟩ .nil
  · have honce := (build_isOk.mp ⟨dag, hbuild⟩).2.once _ (mem_singleton_self _)
    exact absurd honce (by decide)

end PipelineDag

end OctaCity.Pipeline
