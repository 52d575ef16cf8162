/-
  OctaCity.Pipeline.Dag

  The validated Pipeline DAG (octacity-server-pipeline, `PipelineDag`): its
  construction, Kahn's algorithm over a shrinking map of in-degrees, and the
  stored snapshot, which is decoded by constructing the DAG again.
-/
import OctaCity.Lib.Table
import OctaCity.Pipeline.Node

namespace OctaCity.Pipeline

open Lib

/-! ## Edges -/

/-- One directed dependency from a predecessor to a dependent Job template. -/
structure PipelineEdge where
  predecessor : PipelineNodeId
  dependent : PipelineNodeId
  deriving DecidableEq

instance : LinearOrder PipelineEdge :=
  LinearOrder.lift' (fun edge => toLex (edge.predecessor, edge.dependent)) fun a b h => by
    cases a
    cases b
    simpa using h

/-- Validated Pipeline DAG. -/
structure PipelineDag where
  nodes : List PipelineNode
  edges : List PipelineEdge

/-- How a construction ends without a DAG: with an error, with a panic, or in a loop that takes
    more turns than there are nodes. -/
inductive Failure
  | error (error : PipelineError)
  | panic
  | unfinished

def maxPipelineNodes : Nat := 1024
def maxPipelineEdges : Nat := 8192
def maxPipelineFanIn : Nat := 256
def maxPipelineFanOut : Nat := 256
def maxPipelineSnapshotBytes : Nat := 8 * 1024 * 1024
def pipelineSnapshotSchemaVersion : UInt64 := 1

structure NodeCount where
  identity : PipelineNodeId
  count : Nat

abbrev NodeCounts := Table NodeCount.identity

namespace NodeCounts

def degree (counts : NodeCounts) (identity : PipelineNodeId) : Option Nat :=
  (counts.find? identity).map NodeCount.count

/-- `entry(..).or_default()` followed by `+= 1`, with the new count. -/
def tally (counts : NodeCounts) (identity : PipelineNodeId) : NodeCounts × Nat :=
  let count := (counts.degree identity).getD 0 + 1
  (counts.put ⟨identity, count⟩, count)

/-- `get_mut(..).expect(..)` followed by `+= 1`. -/
def increment (counts : NodeCounts) (identity : PipelineNodeId) : Except Failure NodeCounts :=
  match counts.degree identity with
  | none => .error .panic
  | some count => .ok (counts.put ⟨identity, count + 1⟩)

/-- `get_mut(..).expect(..)` followed by `-= 1`, with the new count. -/
def decrement (counts : NodeCounts) (identity : PipelineNodeId) :
    Except Failure (NodeCounts × Nat) :=
  match counts.degree identity with
  | none | some 0 => .error .panic
  | some (count + 1) => .ok (counts.put ⟨identity, count⟩, count)

end NodeCounts

/-! ## Topological order -/

/-- What is pushed to the entry of one predecessor. -/
def outgoing (edges : List PipelineEdge) (identity : PipelineNodeId) : List PipelineNodeId :=
  (edges.filter (·.predecessor = identity)).map (·.dependent)

/-- The three collections of the loop. -/
structure Placing where
  incoming : NodeCounts
  ready : OrdSet PipelineNodeId
  ordered : List PipelineNodeId

/-- One dependent of a placed node. -/
def settle (state : NodeCounts × OrdSet PipelineNodeId) (dependent : PipelineNodeId) :
    Except Failure (NodeCounts × OrdSet PipelineNodeId) := do
  let (incoming, count) ← state.1.decrement dependent
  .ok (incoming, if count = 0 then state.2.insert dependent else state.2)

/-- `while let Some(identity) = ready.pop_first()` -/
def placeReady (edges : List PipelineEdge) : Nat → Placing → Except Failure (List PipelineNodeId)
  | 0, _ => .error .unfinished
  | turns + 1, state =>
    match state.ready.rows with
    | [] => .ok state.ordered
    | identity :: _ => do
      let (incoming, ready) ← (outgoing edges identity).foldlM settle
        (state.incoming, state.ready.erase identity)
      placeReady edges turns ⟨incoming, ready, state.ordered ++ [identity]⟩

/-- The in-degree of every node. -/
def incomingCounts (nodes : List PipelineNode) (edges : List PipelineEdge) :
    Except Failure NodeCounts :=
  edges.foldlM (fun incoming edge => incoming.increment edge.dependent)
    (nodes.foldl (fun incoming node => incoming.put ⟨node.id, 0⟩) Table.empty)

def topologicalIdentities (nodes : List PipelineNode) (edges : List PipelineEdge) :
    Except Failure (List PipelineNodeId) := do
  let incoming ← incomingCounts nodes edges
  let ready := OrdSet.ofList
    ((incoming.rows.filter fun degree => degree.count = 0).map (·.identity))
  let ordered ← placeReady edges (nodes.length + 1) ⟨incoming, ready, []⟩
  if ordered.length ≠ nodes.length then .error (.error .cycle) else .ok ordered

/-! ## Construction -/

/-- Canonical nodes by identity, one for each. -/
def canonicalNodes (floatText : FiniteFloat → String) (nodes : List PipelineNode) :
    Except PipelineError (List PipelineNode) := do
  let canonical ← nodes.mapM (·.canonicalize floatText)
  let sorted := canonical.insertionSort fun left right => left.id ≤ right.id
  match (windows sorted).find? fun pair => pair.1.id = pair.2.id with
  | some pair => .error (.duplicateNode pair.1.id)
  | none => .ok sorted

def requireCapabilities (capabilities : Option CapabilityCatalog) (nodes : List PipelineNode) :
    Except PipelineError Unit :=
  match capabilities with
  | none => .ok ()
  | some catalog => nodes.forM fun node =>
    match node.requiredCapabilities.find? fun capability => !catalog.supports capability with
    | some capability => .error (.unavailableCapability node.id capability)
    | none => .ok ()

/-- The two maps of the loop over the edges. -/
structure Fans where
  fanIn : NodeCounts
  fanOut : NodeCounts

def Fans.add (identities : OrdSet PipelineNodeId) (fans : Fans) (edge : PipelineEdge) :
    Except PipelineError Fans :=
  if edge.predecessor = edge.dependent then .error (.selfDependency edge.predecessor)
  else if ¬identities.contains edge.predecessor then .error (.missingNode edge.predecessor)
  else if ¬identities.contains edge.dependent then .error (.missingNode edge.dependent)
  else if (fans.fanIn.tally edge.dependent).2 > maxPipelineFanIn then
    .error (.fanInExceeded edge.dependent)
  else if (fans.fanOut.tally edge.predecessor).2 > maxPipelineFanOut then
    .error (.fanOutExceeded edge.predecessor)
  else .ok ⟨(fans.fanIn.tally edge.dependent).1, (fans.fanOut.tally edge.predecessor).1⟩

/-- Edges by predecessor and dependent, each once, between nodes of the DAG. -/
def canonicalEdges (nodes : List PipelineNode) (edges : List PipelineEdge) :
    Except PipelineError (List PipelineEdge) :=
  let sorted := edges.insertionSort (· ≤ ·)
  if (windows sorted).any fun pair => pair.1 = pair.2 then .error .duplicateEdge
  else do
    let _ ← sorted.foldlM (Fans.add (OrdSet.ofList (nodes.map (·.id))))
      ⟨Table.empty, Table.empty⟩
    .ok sorted

namespace PipelineEdge

def serialize (edge : PipelineEdge) : Json :=
  .object [("predecessor", .string edge.predecessor.value),
    ("dependent", .string edge.dependent.value)]

def deserialize (value : Json) : Option PipelineEdge :=
  match decodeFields ["predecessor", "dependent"] value with
  | some [predecessor, dependent] => do
    let predecessor ← PipelineNodeId.deserialize predecessor
    let dependent ← PipelineNodeId.deserialize dependent
    some ⟨predecessor, dependent⟩
  | _ => none

end PipelineEdge

namespace PipelineDag

def serialize (dag : PipelineDag) : Json :=
  .object [("schema_version", .number (.posInt pipelineSnapshotSchemaVersion)),
    ("nodes", .array (dag.nodes.map (·.serialize))),
    ("edges", .array (dag.edges.map (·.serialize)))]

section

-- How a float is printed.
variable (floatText : FiniteFloat → String)

def build (nodes : List PipelineNode) (edges : List PipelineEdge)
    (capabilities : Option CapabilityCatalog) : Except Failure PipelineDag :=
  if nodes.isEmpty then .error (.error .empty)
  else if nodes.length > maxPipelineNodes then .error (.error .tooManyNodes)
  else if edges.length > maxPipelineEdges then .error (.error .tooManyEdges)
  else do
    let nodes ← (canonicalNodes floatText nodes).mapError .error
    (requireCapabilities capabilities nodes).mapError .error
    let edges ← (canonicalEdges nodes edges).mapError .error
    let _ ← topologicalIdentities nodes edges
    let dag : PipelineDag := ⟨nodes, edges⟩
    if dag.serialize.size floatText > maxPipelineSnapshotBytes then
      .error (.error .snapshotTooLarge)
    else .ok dag

/-- Revalidates the bounds of a DAG. -/
def validate (dag : PipelineDag) : Except Failure Unit :=
  (build floatText dag.nodes dag.edges none).map fun _ => ()

/-- Checks a restored DAG against the current catalog. -/
def forPublication (dag : PipelineDag) (capabilities : CapabilityCatalog) :
    Except Failure PipelineDag :=
  build floatText dag.nodes dag.edges (some capabilities)

end

/-- A stored snapshot that is not read back. -/
inductive DecodeError
  | malformed
  | rejected (failure : Failure)

/-- The stored form: a schema version, nodes and edges. -/
structure Wire where
  schemaVersion : Nat
  nodes : List PipelineNode
  edges : List PipelineEdge

def Wire.deserialize (value : Json) : Option Wire :=
  match decodeFields ["schema_version", "nodes", "edges"] value with
  | some [.number (.posInt version), nodes, edges] => do
    let nodes ← (← nodes.asArray).mapM PipelineNode.deserialize
    let edges ← (← edges.asArray).mapM PipelineEdge.deserialize
    if version.toNat < 2 ^ 16 then some ⟨version.toNat, nodes, edges⟩ else none
  | _ => none

def deserialize (floatText : FiniteFloat → String) (value : Json) :
    Except DecodeError PipelineDag := do
  let wire ← okOr (Wire.deserialize value) .malformed
  if wire.schemaVersion ≠ pipelineSnapshotSchemaVersion.toNat then
    .error (.rejected (.error .unsupportedSchema))
  else (build floatText wire.nodes wire.edges none).mapError .rejected

/-- The nodes in topological order; a failed sort or a missing node is a panic. -/
def topologicalOrder (dag : PipelineDag) : Except Failure (List PipelineNode) := do
  let identities ← (topologicalIdentities dag.nodes dag.edges).mapError fun _ => .panic
  -- The nodes are sorted by identity, so the binary search finds the node if there is one.
  identities.mapM fun identity => okOr (dag.nodes.find? (·.id = identity)) .panic

end PipelineDag

end OctaCity.Pipeline
