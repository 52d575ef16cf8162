/-
  OctaCity.Factory.Flow.Validation

  Admission of a pinned closure (octacity-server-factory,
  `flow/validation.rs`): typed semantics of each definition, exact nesting,
  authority and the aggregate expansion bound.
-/
import OctaCity.Factory.Flow.Definition

namespace OctaCity.Factory.Flow

open Lib Factory.Graph

/-! ## Control transitions -/

/-- Both keys lie in the same cyclic component. -/
def sameComponent (components : List (List FactoryKey)) (left right : FactoryKey) : Bool :=
  components.any fun component => component.contains left && component.contains right

def inCyclicComponent (components : List (List FactoryKey)) (key : FactoryKey) : Bool :=
  components.any fun component => component.contains key

/-- A declared terminal with exactly this schema. -/
def FlowDefinition.hasTerminal (definition : FlowDefinition) (key : FactoryKey)
    (schema : ImmutableReference) : Bool :=
  match definition.terminals.find? (·.key = key) with
  | some terminal => terminal.schema = schema
  | none => false

def validateTarget (definition : FlowDefinition) (components : List (List FactoryKey))
    (limits : FlowAdmissionLimits) (transition : FlowTransition)
    (outcome : FlowOutcomeDefinition) : Except FactoryError Unit :=
  match transition.target with
  | .node successor => do
    let _ ← okOr (definition.node successor) (invalid "Flow transition successor")
    if (0 < transition.maxRepeats ∧ ¬ sameComponent components transition.predecessor successor) ∨
        limits.maxRepeatCount < transition.maxRepeats then
      .error (invalid "Flow repeat bound")
    else .ok ()
  | .terminal terminal =>
    if ¬ definition.hasTerminal terminal outcome.schema ∨ transition.maxRepeats ≠ 0 then
      .error (invalid "Flow terminal route")
    else .ok ()

/-- A gate that may receive exhausted repeats. -/
def isExhaustionGate (definition : FlowDefinition) (components : List (List FactoryKey))
    (key : FactoryKey) : Bool :=
  (match definition.node key with
    | some gate => gate.kind = .humanGate && gate.operatorRequests
    | none => false) && !inCyclicComponent components key

def validateExhaustion (definition : FlowDefinition) (components : List (List FactoryKey))
    (transition : FlowTransition) (outcome : FlowOutcomeDefinition) : Except FactoryError Unit :=
  match transition.maxRepeats, transition.exhaustedTerminal, transition.exhaustedNode with
  | 0, none, none => .ok ()
  | _ + 1, some terminal, none =>
    if ¬ definition.hasTerminal terminal outcome.schema then
      .error (invalid "Flow repeat exhaustion route")
    else .ok ()
  | _ + 1, none, some node =>
    if ¬ (transition.startsCycle = false ∧ isExhaustionGate definition components node) then
      .error (invalid "Flow repeat exhaustion route")
    else .ok ()
  | _, _, _ => .error (invalid "Flow repeat exhaustion route")

def validateTransition (definition : FlowDefinition) (components : List (List FactoryKey))
    (limits : FlowAdmissionLimits) (transition : FlowTransition) : Except FactoryError Unit := do
  if transition.startsCycle ∧ (transition.maxRepeats = 0 ∨ transition.target.nodeKey? = none) then
    .error (invalid "Flow cycle restart bound")
  else
    let predecessor ← okOr (definition.node transition.predecessor)
      (invalid "Flow transition predecessor")
    let outcome ← okOr (predecessor.outcome transition.outcome) (invalid "Flow transition outcome")
    validateTarget definition components limits transition outcome
    validateExhaustion definition components transition outcome

/-- How many transitions leave the node with the outcome. -/
def FlowDefinition.routeCount (definition : FlowDefinition) (node outcome : FactoryKey) : Nat :=
  definition.transitions.countP fun transition => transition.routes node outcome

/-- The terminals some transition ends in, directly or when exhausted. -/
def FlowDefinition.usedTerminals (definition : FlowDefinition) : List FactoryKey :=
  (OrdSet.ofList (definition.transitions.flatMap fun transition =>
    (match transition.target with
      | .terminal key => [key]
      | .node _ => []) ++ transition.exhaustedTerminal.toList)).rows

def outcomeRoutesInvalid (definition : FlowDefinition) (limits : FlowAdmissionLimits) : Bool :=
  (definition.nodes.any fun node => node.outcomes.any fun outcome =>
    let count := definition.routeCount node.key outcome.key
    count = 0 ∨ (node.kind ≠ .fanOut ∧ count ≠ 1) ∨ limits.maxFanOut < count) ||
  definition.usedTerminals.length != definition.terminals.length

/-- Node edges that are traversed without a repeat bound. -/
def FlowDefinition.unboundedEdges (definition : FlowDefinition) :
    List (StructuralEdge FactoryKey) :=
  (OrdSet.ofList (definition.transitions.filterMap fun transition =>
    match transition.maxRepeats, transition.target with
    | 0, .node successor => some ⟨transition.predecessor, successor⟩
    | _, _ => none)).rows

/-- One pass of the loop that collects nodes from which a terminal is reached. -/
def terminatingRound (definition : FlowDefinition) (terminating : OrdSet FactoryKey) :
    OrdSet FactoryKey :=
  definition.transitions.foldl
    (fun terminating transition =>
      if transition.nodeTargets.any (· ∈ terminating.rows) then
        OrdSet.insert terminating transition.predecessor
      else terminating)
    terminating

/-- The source repeats the pass until nothing is added; every pass before adds the
    predecessor of a transition, so one for each suffices. -/
def FlowDefinition.terminatingNodes (definition : FlowDefinition) : OrdSet FactoryKey :=
  Nat.iterate (terminatingRound definition) definition.transitions.length
    (OrdSet.ofList ((definition.transitions.filter fun transition =>
      transition.target.nodeKey?.isNone || transition.exhaustedTerminal.isSome).map
        (·.predecessor)))

/-! ## Projections and subflow contracts -/

def projectionRoutes (definition : FlowDefinition) : List (FactoryKey × FactoryKey × FactoryKey) :=
  (definition.transitions.flatMap fun transition =>
    transition.nodeTargets.map fun successor =>
      (transition.predecessor, transition.outcome, successor)).dedup

def FlowDataProjection.route (projection : FlowDataProjection) :
    FactoryKey × FactoryKey × FactoryKey :=
  (projection.predecessor, projection.outcome, projection.successor)

def validateDataProjection (definition : FlowDefinition) (projection : FlowDataProjection) :
    Except FactoryError Unit := do
  if projection.route ∉ projectionRoutes definition ∨
      1 < (definition.dataProjections.map (·.route)).count projection.route then
    .error (invalid "Flow data projection route")
  else
    let source ← okOr (definition.node projection.predecessor) (invalid "Flow data source")
    let outcome ← okOr (source.outcome projection.outcome) (invalid "Flow data outcome")
    let target ← okOr (definition.node projection.successor) (invalid "Flow data target")
    if outcome.schema ≠ projection.schema ∨ target.inputSchema ≠ some projection.schema then
      .error (invalid "Flow data schema compatibility")
    else .ok ()

def validateTypedInput (definition : FlowDefinition) (node : FlowNodeDefinition) :
    Except FactoryError Unit :=
  if node.inputSchema.isSome ∧ node.key ≠ definition.entry ∧ node.inputBinding = false then
    let incoming := (projectionRoutes definition).countP fun route => route.2.2 = node.key
    let projected := ((definition.dataProjections.map (·.route)).dedup).countP
      fun route => route.2.2 = node.key
    if incoming = 0 ∨ incoming ≠ projected then .error (invalid "Flow typed input projection")
    else .ok ()
  else .ok ()

def validateProjections (definition : FlowDefinition) : Except FactoryError Unit := do
  forM definition.dataProjections (validateDataProjection definition)
  forM definition.contextProjections fun projection =>
    if (projection.predecessor, projection.outcome, projection.successor) ∉
        projectionRoutes definition then
      .error (invalid "Flow context projection route")
    else .ok ()
  forM definition.nodes (validateTypedInput definition)

def validateSubflowContract (node : FlowNodeDefinition) (child : FlowDefinition) :
    Except FactoryError Unit :=
  if node.inputSchema ≠ child.inputSchema ∨ ¬ child.execution.budget.fitsWithin node.budget ∨
      ¬ child.execution.permissions.isNoBroaderThan node.permissions ∨
      node.outcomes.length ≠ child.terminals.length ∨
      node.outcomes.any fun outcome => ¬ child.hasTerminal outcome.key outcome.schema then
    .error (invalid "Flow subflow contract")
  else .ok ()

/-! ## One definition -/

def validateNode (closure : PinnedFlowDefinitionClosure) (definition : FlowDefinition)
    (node : FlowNodeDefinition) : Except FactoryError Unit := do
  match node.budget.firstExcess definition.execution.budget with
  | some violation =>
    .error (.budgetCeilingExceeded
      ⟨definition.reference, some node.key, .definition, violation⟩)
  | none =>
    if ¬ node.permissions.isNoBroaderThan definition.execution.permissions then
      .error (invalid "Flow node authority")
    else
      match node.subflow with
      | none => .ok ()
      | some reference =>
        let child ← okOr (closure.definition reference) (invalid "Flow subflow version")
        validateSubflowContract node child

def validateDefinitionBounds (definition : FlowDefinition) (limits : FlowAdmissionLimits) :
    Except FactoryError Unit :=
  match definition.execution.budget.firstExcess limits.budget with
  | some violation =>
    .error (.budgetCeilingExceeded ⟨definition.reference, none, .admission, violation⟩)
  | none =>
    if limits.maxWip < definition.execution.maxActiveNodes then
      .error (.flowNodeCapacityExceeded definition.reference
        definition.execution.maxActiveNodes limits.maxWip)
    else if definition.terminals.isEmpty ∨
        ¬ definition.execution.permissions.isNoBroaderThan limits.permissions then
      .error (invalid "Flow definition bounds")
    else if (definition.node definition.entry).bind (·.inputSchema) ≠ definition.inputSchema then
      .error (invalid "Flow entry input schema")
    else .ok ()

/-- An analysis whose issues are reported under one field. -/
def analyzeFlowGraph (definition : FlowDefinition) (edges : List (StructuralEdge FactoryKey))
    (field : String) : Except FactoryError (StructuralFacts FactoryKey) :=
  match analyze (definition.nodes.map (·.key)) edges [definition.entry] with
  | .ok facts => .ok facts
  | .error _ => .error (invalid field)

def validateDefinition (checks : DefinitionChecks) (closure : PinnedFlowDefinitionClosure)
    (limits : FlowAdmissionLimits) (definition : FlowDefinition) : Except FactoryError Unit := do
  definition.validateCanonicalForm checks
  validateDefinitionBounds definition limits
  let facts ← analyzeFlowGraph definition definition.structuralEdges "Flow control graph"
  if limits.maxFanOut < facts.maxFanOut ∨
      definition.nodes.any fun node => node.required && !facts.reachable.contains node.key then
    .error (invalid "Flow reachability or fan-out")
  else if ¬ (definition.terminals.map (·.key)).Nodup then
    .error (invalid "Flow terminal outcomes")
  else
    forM definition.transitions (validateTransition definition facts.cyclicComponents limits)
    if definition.transitions.any fun transition => transition.startsCycle ∧
        definition.routeCount transition.predecessor transition.outcome ≠ 1 then
      .error (invalid "Flow cycle restart routes")
    else if outcomeRoutesInvalid definition limits then
      .error (invalid "Flow outcome routes")
    else
      let unbounded ← analyzeFlowGraph definition definition.unboundedEdges
        "Flow unbounded control graph"
      if !unbounded.cyclicComponents.isEmpty then .error (invalid "Flow repeat bound")
      else if facts.reachable.any fun node => node ∉ definition.terminatingNodes.rows then
        .error (invalid "Flow terminal reachability")
      else
        validateProjections definition
        forM definition.nodes (validateNode closure definition)

/-! ## Nesting and expansion -/

theorem PinnedFlowDefinitionClosure.definition_mem {closure : PinnedFlowDefinitionClosure}
    {reference : FlowDefinitionRef} {definition : FlowDefinition}
    (h : closure.definition reference = some definition) :
    definition ∈ closure.definitions ∧ definition.reference = reference :=
  ⟨List.mem_of_find?_eq_some h, by simpa using List.find?_some h⟩

/-- Visits the definitions below `reference`; returns those known not to be
    recursive. -/
def rejectRecursiveDefinitions (closure : PinnedFlowDefinitionClosure)
    (visiting visited : List FlowDefinitionRef) (reference : FlowDefinitionRef) :
    Except FactoryError (List FlowDefinitionRef) :=
  if reference ∈ visited then .ok visited
  else if _h : reference ∈ visiting then .error (invalid "recursive Flow Definition")
  else
    match _hd : closure.definition reference with
    | none => .error (invalid "Flow subflow version")
    | some definition => do
      let visited ← definition.subflows.foldlM
        (fun visited child =>
          rejectRecursiveDefinitions closure (reference :: visiting) visited child) visited
      .ok (reference :: visited)
termination_by remaining (closure.definitions.map (·.reference)) visiting
decreasing_by
  refine remaining_lt ?_ _h
  obtain ⟨hmem, rfl⟩ := PinnedFlowDefinitionClosure.definition_mem _hd
  exact List.mem_map_of_mem hmem

def FlowDefinition.repeatMultiplier (definition : FlowDefinition) : Option Nat :=
  (definition.transitions.filter fun transition => 0 < transition.maxRepeats).foldlM
    (fun total transition => checkedMul 32 total (transition.maxRepeats + 1)) 1

def FlowDefinition.nodeExecutions (definition : FlowDefinition) : Option Nat :=
  definition.nodes.foldlM (fun total node => checkedAdd 32 total (1 + node.maxExecutionRetries)) 0

/-- Adds the expansion of one called definition. -/
def addExpansion (total depth childNodes childDepth : Nat) : Except FactoryError (Nat × Nat) := do
  let total ← okOr (checkedAdd 32 total childNodes) (invalid "Flow expanded node count")
  let childDepth ← okOr (checkedAdd 16 childDepth 1) (invalid "Flow nesting depth")
  .ok (total, max depth childDepth)

/-- Expanded nodes and depth of a definition, recomputed where the source has a memo
    table, with fuel for the nesting depth. -/
def expandedMeasurements (closure : PinnedFlowDefinitionClosure) :
    Nat → FlowDefinitionRef → Except FactoryError (Nat × Nat)
  | 0, _ => .error (invalid "Flow nesting depth")
  | fuel + 1, reference => do
    let definition ← okOr (closure.definition reference) (invalid "Flow subflow version")
    let repeatMultiplier ← okOr definition.repeatMultiplier (invalid "Flow repeat expansion")
    let nodes ← okOr definition.nodeExecutions (invalid "Flow node retry expansion")
    let measured ← definition.subflows.foldlM
      (fun measured child => do
        let expanded ← expandedMeasurements closure fuel child
        addExpansion measured.1 measured.2 expanded.1 expanded.2)
      (nodes, 1)
    let nodes ← okOr (checkedMul 32 measured.1 repeatMultiplier) (invalid "Flow repeat expansion")
    .ok (nodes, measured.2)

/-- Fully validated immutable closure admitted for deterministic interpretation. -/
structure ValidatedFlowDefinitionClosure where
  closure : PinnedFlowDefinitionClosure
  limits : FlowAdmissionLimits
  expandedNodes : Nat
  maxDepth : Nat
  deriving DecidableEq

/-- Validates typed semantics, exact nesting, authority, and aggregate bounds. -/
def ValidatedFlowDefinitionClosure.new (checks : DefinitionChecks)
    (closure : PinnedFlowDefinitionClosure) (limits : FlowAdmissionLimits) :
    Except FactoryError ValidatedFlowDefinitionClosure := do
  forM closure.definitions (validateDefinition checks closure limits)
  let _ ← rejectRecursiveDefinitions closure [] [] closure.root
  let measured ← expandedMeasurements closure closure.definitions.length closure.root
  if limits.maxExpandedNodes < measured.1 ∨ limits.maxDepth < measured.2 then
    .error (invalid "Flow closure bounds")
  else
    let root ← okOr (closure.definition closure.root) (invalid "Flow closure root")
    if ¬ root.execution.budget.fitsWithin limits.budget ∨
        ¬ root.execution.permissions.isNoBroaderThan limits.permissions ∨
        limits.maxWip < root.execution.maxActiveNodes then
      .error (invalid "Flow admission authority")
    else
      checks.issueSlots closure
      .ok ⟨closure, limits, measured.1, measured.2⟩

end OctaCity.Factory.Flow
