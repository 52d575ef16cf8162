/-
  OctaCity.Factory.Flow.Definition

  Immutable Flow Definitions and the closure pinned at admission
  (octacity-server-factory, `flow/contract.rs`, `flow/definition.rs`).

  A definition keeps what admission and interpretation read.  The contents of
  bindings, instructions, code sources and process inputs are represented only
  by the digest in the reference; `DefinitionChecks` stands for the checks on
  them, and every result below holds whatever these checks accept.
-/
import OctaCity.Factory.Budget
import OctaCity.Factory.Graph
import OctaCity.Factory.Permission
import OctaCity.Lib.Result

namespace OctaCity.Factory.Flow

open Lib Factory.Graph

def maxFlowDefinitionClosure : Nat := 64
def maxFactoryActiveNodes : Nat := 1000

/-! ## Contracts -/

/-- Closed provider-neutral primitive kinds. -/
inductive FlowNodeKind
  | buildCommand
  | reasoning
  | decisionSignal
  | trustedAction
  | deterministicGate
  | fanOut
  | join
  | humanGate
  | subflowCall
  deriving DecidableEq

/-- One finite schema-bound outcome declared by a Flow node. -/
structure FlowOutcomeDefinition where
  key : FactoryKey
  schema : ImmutableReference
  deriving DecidableEq

/-- One finite terminal outcome exported by a Flow Definition. -/
structure FlowTerminalDefinition where
  key : FactoryKey
  schema : ImmutableReference
  deriving DecidableEq

inductive FlowTransitionTarget
  | node (key : FactoryKey)
  | terminal (key : FactoryKey)
  deriving DecidableEq

def FlowTransitionTarget.nodeKey? : FlowTransitionTarget → Option FactoryKey
  | .node key => some key
  | .terminal _ => none

/-- One code-owned control transition selected only by a declared outcome. -/
structure FlowTransition where
  predecessor : FactoryKey
  outcome : FactoryKey
  target : FlowTransitionTarget
  maxRepeats : Nat := 0
  exhaustedTerminal : Option FactoryKey := none
  exhaustedNode : Option FactoryKey := none
  startsCycle : Bool := false
  deriving DecidableEq

/-- Node targets, the exhaustion gate included. -/
def FlowTransition.nodeTargets (transition : FlowTransition) : List FactoryKey :=
  transition.target.nodeKey?.toList ++ transition.exhaustedNode.toList

def FlowTransition.isExhausted (transition : FlowTransition) (traversals : Nat) : Bool :=
  0 < transition.maxRepeats ∧ transition.maxRepeats < traversals

def FlowTransition.selectedNode (transition : FlowTransition) (traversals : Nat) :
    Option FactoryKey :=
  if transition.isExhausted traversals then transition.exhaustedNode
  else transition.target.nodeKey?

/-- Whether the transition leaves the given node with the given outcome. -/
def FlowTransition.routes (transition : FlowTransition) (node outcome : FactoryKey) : Bool :=
  transition.predecessor = node ∧ transition.outcome = outcome

/-- Explicit context-only visibility from one predecessor outcome to a successor. -/
structure FlowContextProjection where
  predecessor : FactoryKey
  outcome : FactoryKey
  successor : FactoryKey
  selections : List FactoryKey
  deriving DecidableEq

/-- Explicit typed data transfer from one predecessor outcome to a successor. -/
structure FlowDataProjection where
  predecessor : FactoryKey
  outcome : FactoryKey
  successor : FactoryKey
  schema : ImmutableReference
  deriving DecidableEq

/-- Definition-local execution ceilings. -/
structure FlowExecutionPolicy where
  budget : BudgetLimit
  permissions : FactoryPermissionSet
  maxActiveNodes : Nat
  deriving DecidableEq

/-- Admission-wide safety ceilings applied to an exact pinned closure. -/
structure FlowAdmissionLimits where
  maxDepth : Nat
  maxExpandedNodes : Nat
  maxRepeatCount : Nat
  maxFanOut : Nat
  maxWip : Nat
  budget : BudgetLimit
  permissions : FactoryPermissionSet
  deriving DecidableEq

/-- The declaration order of the source: node targets before terminals. -/
def FlowTransitionTarget.orderKey : FlowTransitionTarget → Bool ×ₗ FactoryKey
  | .node key => toLex (false, key)
  | .terminal key => toLex (true, key)

def FlowTransition.orderKey (transition : FlowTransition) :
    FactoryKey ×ₗ FactoryKey ×ₗ (Bool ×ₗ FactoryKey) ×ₗ Nat ×ₗ WithBot FactoryKey ×ₗ
      WithBot FactoryKey ×ₗ Bool :=
  toLex (transition.predecessor, toLex (transition.outcome, toLex (transition.target.orderKey,
    toLex (transition.maxRepeats, toLex (transition.exhaustedTerminal,
      toLex (transition.exhaustedNode, transition.startsCycle))))))

def FlowContextProjection.orderKey (projection : FlowContextProjection) :
    FactoryKey ×ₗ FactoryKey ×ₗ FactoryKey ×ₗ List FactoryKey :=
  toLex (projection.predecessor, toLex (projection.outcome,
    toLex (projection.successor, projection.selections)))

def FlowDataProjection.orderKey (projection : FlowDataProjection) :
    FactoryKey ×ₗ FactoryKey ×ₗ FactoryKey ×ₗ ImmutableReference :=
  toLex (projection.predecessor, toLex (projection.outcome,
    toLex (projection.successor, projection.schema)))

/-! ## Nodes and definitions -/

/-- One immutable node declaration.  `operatorRequests` and `inputBinding` say
    whether the node declares a management contract and an input selection. -/
structure FlowNodeDefinition where
  key : FactoryKey
  kind : FlowNodeKind
  inputSchema : Option ImmutableReference := none
  outcomes : List FlowOutcomeDefinition
  budget : BudgetLimit
  permissions : FactoryPermissionSet := {}
  required : Bool := true
  subflow : Option FlowDefinitionRef := none
  operatorRequests : Bool := false
  inputBinding : Bool := false
  maxExecutionRetries : Nat := 0
  deriving DecidableEq

def FlowNodeDefinition.outcome (node : FlowNodeDefinition) (key : FactoryKey) :
    Option FlowOutcomeDefinition :=
  node.outcomes.find? (·.key = key)

def FlowNodeDefinition.validateDeclaration (node : FlowNodeDefinition) :
    Except FactoryError Unit :=
  if node.outcomes.isEmpty ∨ ¬ (node.outcomes.map (·.key)).IsChain (· ≠ ·) then
    .error (invalid "Flow node outcomes")
  else if (node.kind = .subflowCall) ≠ (node.subflow.isSome = true) then
    .error (.invalidReference "subflow definition")
  else .ok ()

def FlowNodeKind.isRetryable : FlowNodeKind → Bool
  | .buildCommand | .reasoning | .decisionSignal | .trustedAction => true
  | _ => false

def FlowNodeDefinition.validateExecutionRetries (node : FlowNodeDefinition) :
    Except FactoryError Unit :=
  if maxFactoryAttempts ≤ node.maxExecutionRetries ∨
      (node.maxExecutionRetries ≠ 0 ∧ ¬ node.kind.isRetryable) then
    .error (invalid "Node execution retry bound")
  else .ok ()

/-- Canonically ordered immutable semantics of one Factory Flow version. -/
structure FlowDefinition where
  reference : FlowDefinitionRef
  inputSchema : Option ImmutableReference := none
  entry : FactoryKey
  nodes : List FlowNodeDefinition
  transitions : List FlowTransition
  terminals : List FlowTerminalDefinition
  contextProjections : List FlowContextProjection := []
  dataProjections : List FlowDataProjection := []
  execution : FlowExecutionPolicy
  deriving DecidableEq

namespace FlowDefinition

def node (definition : FlowDefinition) (key : FactoryKey) : Option FlowNodeDefinition :=
  definition.nodes.find? (·.key = key)

/-- The control edges, canonically ordered and without repetition. -/
def structuralEdges (definition : FlowDefinition) : List (StructuralEdge FactoryKey) :=
  (OrdSet.ofList (definition.transitions.flatMap fun transition =>
    transition.nodeTargets.map fun successor => ⟨transition.predecessor, successor⟩)).rows

/-- Exact nested definitions called by the nodes. -/
def subflows (definition : FlowDefinition) : List FlowDefinitionRef :=
  definition.nodes.filterMap (·.subflow)

end FlowDefinition

/-- The references reached from the root through exact subflow calls. -/
def reachableRefs (root : FlowDefinitionRef) (definitions : List FlowDefinition) :
    List FlowDefinitionRef :=
  search (fun reference =>
      ((definitions.find? (·.reference = reference)).map (·.subflows)).getD [])
    (definitions.map (·.reference)) [root] []

/-- Exact reachable immutable Flow Definition closure pinned at admission. -/
structure PinnedFlowDefinitionClosure where
  root : FlowDefinitionRef
  definitions : List FlowDefinition
  ordered : definitions.Pairwise fun a b => a.reference < b.reference
  rooted : root ∈ definitions.map (·.reference)
  closed : ∀ definition ∈ definitions, ∀ nested ∈ definition.subflows,
    nested ∈ definitions.map (·.reference)
  reachable : ∀ reference ∈ definitions.map (·.reference),
    reference ∈ reachableRefs root definitions
  deriving DecidableEq

namespace PinnedFlowDefinitionClosure

def definition (closure : PinnedFlowDefinitionClosure) (reference : FlowDefinitionRef) :
    Option FlowDefinition :=
  closure.definitions.find? (·.reference = reference)

/-- Pins exactly the definitions reachable through exact subflow references. -/
def new (root : FlowDefinitionRef) (definitions : List FlowDefinition) :
    Except FactoryError PinnedFlowDefinitionClosure :=
  if definitions.isEmpty ∨ maxFlowDefinitionClosure < definitions.length then
    .error (.collectionLimitExceeded "Flow Definition closure")
  else
    let sorted := definitions.insertionSort (fun a b => a.reference ≤ b.reference)
    if h : (sorted.Pairwise fun a b => a.reference < b.reference) ∧
        root ∈ sorted.map (·.reference) ∧
        (∀ definition ∈ sorted, ∀ nested ∈ definition.subflows,
          nested ∈ sorted.map (·.reference)) ∧
        ∀ reference ∈ sorted.map (·.reference), reference ∈ reachableRefs root sorted then
      .ok ⟨root, sorted, h.1, h.2.1, h.2.2.1, h.2.2.2⟩
    else .error (.invalidReference "reachable Flow Definition closure")

end PinnedFlowDefinitionClosure

/-- Checks on content that is represented only by its digest. -/
structure DefinitionChecks where
  bindings : FlowDefinition → Except FactoryError Unit
  digest : FlowDefinition → FactoryDigest
  issueSlots : PinnedFlowDefinitionClosure → Except FactoryError Unit

def FlowDefinition.isCanonical (definition : FlowDefinition) : Bool :=
  (definition.nodes.map (·.key)).IsChain (· < ·) ∧
  (definition.transitions.map (·.orderKey)).IsChain (· < ·) ∧
  (definition.terminals.map (·.key)).IsChain (· < ·) ∧
  (definition.contextProjections.map (·.orderKey)).IsChain (· < ·) ∧
  (definition.dataProjections.map (·.orderKey)).IsChain (· < ·)

def FlowDefinition.validateCanonicalForm (checks : DefinitionChecks)
    (definition : FlowDefinition) : Except FactoryError Unit := do
  checks.bindings definition
  forM definition.nodes fun node => do
    node.validateDeclaration
    node.validateExecutionRetries
  if !definition.isCanonical ∨ definition.reference.digest ≠ checks.digest definition then
    .error (.invalidReference "canonical Flow Definition")
  else .ok ()

end OctaCity.Factory.Flow
