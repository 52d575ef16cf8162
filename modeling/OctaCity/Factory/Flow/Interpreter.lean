/-
  OctaCity.Factory.Flow.Interpreter

  The stateless interpreter over one validated closure
  (octacity-server-factory, `flow/interpreter.rs`, `flow/progress.rs`, and the
  measured usage of `flow/history.rs`): which cycle entry, successors, restart
  or terminal the retained rows select.
-/
import OctaCity.Factory.Flow.Runtime

namespace OctaCity.Factory.Flow

open Lib

/-! ## Measured usage -/

abbrev UsageByFlow := Table (Prod.fst : FlowRunId × BudgetUsage → FlowRunId)

namespace UsageByFlow

def get (usage : UsageByFlow) (flow : FlowRunId) : BudgetUsage :=
  match usage.find? flow with
  | some row => row.2
  | none => {}

def set (usage : UsageByFlow) (flow : FlowRunId) (total : BudgetUsage) : UsageByFlow :=
  match usage.insert? (flow, total) with
  | some usage => usage
  | none =>
    usage.mapRows (fun row => if row.1 = flow then (row.1, total) else row) fun row => by
      split <;> rfl

end UsageByFlow

def addFlowUsage (usage : UsageByFlow) (flow : FlowRunId) (observed : BudgetUsage) :
    Except FactoryError UsageByFlow := do
  let total ← okOr ((usage.get flow).checkedAdd observed) (invalid "Flow budget usage")
  .ok (usage.set flow total)

def sumUsage (usage : List BudgetUsage) : Except FactoryError BudgetUsage :=
  usage.foldlM (fun left right => okOr (left.checkedAdd right) (invalid "Flow budget usage")) {}

namespace FlowRuntimeHistory

/-- The completion retained for an attempt. -/
def completion? (history : FlowRuntimeHistory) (attempt : NodeAttemptId) :
    Option NodeAttemptCompletion :=
  history.completions.find? (·.nodeAttemptId = attempt)

def isCompleted (history : FlowRuntimeHistory) (attempt : NodeAttemptId) : Bool :=
  history.completions.any (·.nodeAttemptId = attempt)

def isStopped (history : FlowRuntimeHistory) (attempt : NodeAttemptId) : Bool :=
  history.stops.any (·.nodeAttemptId = attempt)

def attempt? (history : FlowRuntimeHistory) (id : NodeAttemptId) : Option NodeAttempt :=
  history.attempts.find? (·.id = id)

/-- Sums measured consumption once per retained result or technical stop. -/
def observedUsageByFlow (history : FlowRuntimeHistory) : Except FactoryError UsageByFlow := do
  let usage ← history.completions.foldlM
    (fun usage completion => addFlowUsage usage completion.flowRunId completion.usage)
    (Table.empty : UsageByFlow)
  history.stops.foldlM
    (fun usage stop => do
      let attempt ← okOr (history.attempt? stop.nodeAttemptId) (invalid "Node stop attempt")
      addFlowUsage usage attempt.flowRunId stop.usage)
    usage

end FlowRuntimeHistory

/-! ## Directives -/

/-- Explicit context and typed-data declarations selected for one successor. -/
structure FlowDirectiveInputs where
  context : List FlowContextProjection
  data : List FlowDataProjection

/-- One pure code-owned instruction derived from persisted Flow facts. -/
inductive FlowDirective
  | restartCycle (node : FactoryKey) (source : NodeAttemptId)
  | executeNode (definition : FlowDefinitionRef) (node : FactoryKey) (kind : FlowNodeKind)
      (inputs : FlowDirectiveInputs)
  | enterSubflow (node : FactoryKey) (definition : FlowDefinitionRef)
      (inputs : FlowDirectiveInputs)
  | complete (terminal : FactoryKey) (schemaDigest : FactoryDigest)

def directiveForNode (definition : FlowDefinition) (key : FactoryKey)
    (inputs : FlowDirectiveInputs) : Except FactoryError FlowDirective := do
  let node ← okOr (definition.node key) (invalid "Flow directive node")
  match node.subflow with
  | some nested => .ok (.enterSubflow key nested inputs)
  | none => .ok (.executeNode definition.reference key node.kind inputs)

def projectedInputs (definition : FlowDefinition) (predecessor outcome successor : FactoryKey) :
    FlowDirectiveInputs where
  context := definition.contextProjections.filter fun projection =>
    projection.predecessor = predecessor ∧ projection.outcome = outcome ∧
      projection.successor = successor
  data := definition.dataProjections.filter fun projection =>
    projection.predecessor = predecessor ∧ projection.outcome = outcome ∧
      projection.successor = successor

/-- The directive of one transition left by a completed attempt. -/
def transitionDirective (definition : FlowDefinition) (attempt : NodeAttempt)
    (completion : NodeAttemptCompletion) (declared : FlowOutcomeDefinition) (traversals : Nat)
    (transition : FlowTransition) : Except FactoryError FlowDirective :=
  match transition.selectedNode traversals with
  | some successor =>
    if transition.startsCycle then .ok (.restartCycle successor attempt.id)
    else
      directiveForNode definition successor
        (projectedInputs definition attempt.nodeKey completion.outcome successor)
  | none =>
    let (terminalKey, errorField) :=
      if transition.isExhausted traversals then
        (transition.exhaustedTerminal, "Flow repeat exhaustion route")
      else
        (match transition.target with
          | .terminal key => some key
          | .node _ => none, "Flow terminal schema")
    match terminalKey.bind fun key => (definition.terminals.find? (·.key = key)).filter
        fun terminal => terminal.schema = declared.schema with
    | some terminal => .ok (.complete terminal.key terminal.schema.digest)
    | none => .error (invalid errorField)

/-- Stateless interpreter over one fully validated immutable closure. -/
structure FlowInterpreter where
  validated : ValidatedFlowDefinitionClosure

/-- Completions of the Flow Run with the node and the outcome. -/
def FlowRuntimeHistory.traversals (history : FlowRuntimeHistory) (flow : FlowRunId)
    (node outcome : FactoryKey) : Nat :=
  history.completions.countP fun record =>
    record.flowRunId = flow ∧ record.nodeKey = node ∧ record.outcome = outcome

namespace FlowInterpreter

variable (interpreter : FlowInterpreter)

def definition (flow : FlowRun) : Except FactoryError FlowDefinition :=
  okOr (interpreter.validated.closure.definition flow.definition) (invalid "Flow Run definition")

def validateRuntimeLimits (definition : FlowDefinition) (flow : FlowRun)
    (completion : NodeAttemptCompletion) (history : FlowRuntimeHistory) :
    Except FactoryError Unit := do
  if history.attempts.countP (·.id = completion.nodeAttemptId) ≠ 1 ∨
      history.completions.countP (·.nodeAttemptId = completion.nodeAttemptId) ≠ 1 then
    .error (invalid "Flow append-only attempt history")
  else
    let usage ← history.observedUsageByFlow
    (usage.get flow.id).validate definition.execution.budget
    let aggregate ← sumUsage (usage.rows.map (·.2))
    aggregate.validate interpreter.validated.limits.budget

/-- Derives the control actions of one completed attempt. -/
def controlDirectives (flow : FlowRun) (cycle : WorkflowCycle) (attempt : NodeAttempt)
    (completion : NodeAttemptCompletion) (history : FlowRuntimeHistory) :
    Except FactoryError (List FlowDirective) := do
  let definition ← interpreter.definition flow
  if cycle.flowRunId ≠ flow.id ∨ attempt.flowRunId ≠ flow.id ∨
      attempt.workflowCycleId ≠ cycle.id ∨ completion.nodeAttemptId ≠ attempt.id ∨
      completion.flowRunId ≠ flow.id ∨ completion.workflowCycleId ≠ cycle.id ∨
      completion.nodeKey ≠ attempt.nodeKey then
    .error (invalid "Flow interpretation snapshot")
  else
    let node ← okOr (definition.node attempt.nodeKey) (invalid "Flow interpretation node")
    let declared ← okOr ((node.outcome completion.outcome).filter
      fun outcome => outcome.schema = completion.outputSchema)
      (invalid "Flow interpretation outcome")
    interpreter.validateRuntimeLimits definition flow completion history
    let transitions := definition.transitions.filter
      (·.routes attempt.nodeKey completion.outcome)
    if transitions.isEmpty then .error (invalid "Flow interpretation transition")
    else
      let traversals := history.traversals flow.id attempt.nodeKey completion.outcome
      transitions.mapM (transitionDirective definition attempt completion declared traversals)

/-- The finite same-cycle node routes for one declared outcome. -/
def declaredSuccessorKeys (definition : FlowDefinition) (predecessor outcome : FactoryKey)
    (traversals : Nat) : OrdSet FactoryKey :=
  OrdSet.ofList ((definition.transitions.filter fun transition =>
    !transition.startsCycle && transition.routes predecessor outcome).filterMap
      fun transition => transition.selectedNode traversals)

/-! ## Cycle entries -/

/-- The earliest accepted restart found so far. -/
structure RestartCause where
  number : NodeAttemptNumber
  source : NodeAttemptId
  node : FactoryKey

/-- Numbers at or below the greatest one of the cycle. -/
def belowCeiling (history : FlowRuntimeHistory) (cycle : WorkflowCycle)
    (number : NodeAttemptNumber) : Bool :=
  history.attempts.any fun row => row.workflowCycleId = cycle.id ∧ number ≤ row.number

/-- Traversals within the execution prefix that ends with the cycle. -/
def prefixTraversals (history : FlowRuntimeHistory) (flow : FlowRun) (cycle : WorkflowCycle)
    (node outcome : FactoryKey) : Nat :=
  history.completions.countP fun completion =>
    completion.flowRunId = flow.id ∧
    (history.attempts.any fun row =>
      row.id = completion.nodeAttemptId ∧ belowCeiling history cycle row.number) ∧
    completion.nodeKey = node ∧ completion.outcome = outcome

/-- The restart edge an attempt's result selects, if it is not exhausted. -/
def selectRestart (definition : FlowDefinition) (flow : FlowRun) (cycle : WorkflowCycle)
    (history : FlowRuntimeHistory) (selected : Option RestartCause) (attempt : NodeAttempt) :
    Except FactoryError (Option RestartCause) :=
  match history.completion? attempt.id with
  | none => .ok selected
  | some completion =>
    match definition.transitions.find? fun edge =>
        edge.startsCycle && edge.routes attempt.nodeKey completion.outcome with
    | none => .ok selected
    | some edge =>
      if edge.maxRepeats <
          prefixTraversals history flow cycle attempt.nodeKey completion.outcome then .ok selected
      else
        match edge.target with
        | .terminal _ => .error (invalid "workflow cycle declared restart")
        | .node node =>
          match selected with
          | none => .ok (some ⟨attempt.number, attempt.id, node⟩)
          | some cause =>
            if attempt.number < cause.number then .ok (some ⟨attempt.number, attempt.id, node⟩)
            else .ok (some cause)

def restartInCycle (flow : FlowRun) (cycle : WorkflowCycle) (history : FlowRuntimeHistory) :
    Except FactoryError (Option RestartCause) := do
  let definition ← interpreter.definition flow
  (history.attempts.filter fun row =>
    row.workflowCycleId = cycle.id ∧ row.flowRunId = flow.id).foldlM
      (selectRestart definition flow cycle history) none

/-- The attempt has neither a result nor a confirmed stop. -/
def isUnfinished (history : FlowRuntimeHistory) (attempt : NodeAttempt) : Bool :=
  !history.isCompleted attempt.id && !history.isStopped attempt.id

/-- Reconstructs the configured entry from a retained restart source. -/
def cycleEntry (flow : FlowRun) (cycle : WorkflowCycle) (history : FlowRuntimeHistory) :
    Except FactoryError FactoryKey := do
  if cycle.flowRunId ≠ flow.id then .error (invalid "workflow cycle owner")
  else
    match cycle.predecessor with
    | none =>
      let definition ← interpreter.definition flow
      .ok definition.entry
    | some predecessor =>
      let source ← okOr cycle.sourceAttemptId (invalid "workflow cycle source")
      let attempt ← okOr (history.attempt? source) (invalid "workflow cycle source")
      let previous ← okOr (history.cycles.find? (·.id = predecessor))
        (invalid "workflow cycle predecessor")
      if attempt.flowRunId ≠ flow.id ∨ attempt.workflowCycleId ≠ previous.id ∨
          history.attempts.any fun row =>
            row.workflowCycleId = previous.id && isUnfinished history row then
        .error (invalid "workflow cycle unfinished predecessor")
      else
        match ← interpreter.restartInCycle flow previous history with
        | some cause =>
          if cause.source = source then .ok cause.node
          else .error (invalid "workflow cycle declared restart")
        | none => .error (invalid "workflow cycle declared restart")

/-! ## Progress -/

/-- Current configured control position derived only from retained history. -/
inductive FlowProgress
  | restartCycle (node : FactoryKey) (source : NodeAttemptId)
  | node (key : FactoryKey)
  | terminal (key : FactoryKey) (source : NodeAttemptId)
  | waiting
  deriving DecidableEq

/-- The attempts of one cycle of a Flow Run in execution order. -/
def cycleAttempts (history : FlowRuntimeHistory) (flow : FlowRun) (cycle : WorkflowCycle) :
    List NodeAttempt :=
  (history.attempts.filter fun row =>
    row.flowRunId = flow.id ∧ row.workflowCycleId = cycle.id).insertionSort
      fun left right => left.number ≤ right.number

/-- Neither completed nor retried within the given attempts. -/
def isPending (history : FlowRuntimeHistory) (attempts : List NodeAttempt)
    (attempt : NodeAttempt) : Bool :=
  !(attempts.any fun next => next.retryOf = some attempt.id) && !history.isCompleted attempt.id

/-- The mutable locals of the scan over the attempts of a cycle. -/
structure Scan where
  ready : OrdSet FactoryKey
  restart : Option (FactoryKey × NodeAttemptId)
  terminal : Option (NodeAttemptNumber × FactoryKey × NodeAttemptId)

/-- A node directive is consumed by any later attempt of its node. -/
def isConsumed (attempts : List NodeAttempt) (attempt : NodeAttempt) (node : FactoryKey) : Bool :=
  attempts.any fun successor => successor.nodeKey = node ∧ attempt.number < successor.number

def Scan.offer (scan : Scan) (attempts : List NodeAttempt) (attempt : NodeAttempt)
    (node : FactoryKey) : Scan :=
  if isConsumed attempts attempt node then scan
  else { scan with ready := OrdSet.insert scan.ready node }

def Scan.apply (attempts : List NodeAttempt) (attempt : NodeAttempt) (scan : Scan) :
    FlowDirective → Scan
  | .restartCycle node source =>
    if scan.restart.isNone then { scan with restart := some (node, source) } else scan
  | .executeNode _ node _ _ => scan.offer attempts attempt node
  | .enterSubflow node _ _ => scan.offer attempts attempt node
  | .complete key _ =>
    match scan.terminal with
    | none => { scan with terminal := some (attempt.number, key, attempt.id) }
    | some (number, _, _) =>
      if number < attempt.number then
        { scan with terminal := some (attempt.number, key, attempt.id) }
      else scan

def scanAttempt (flow : FlowRun) (cycle : WorkflowCycle) (history : FlowRuntimeHistory)
    (attempts : List NodeAttempt) (scan : Scan) (attempt : NodeAttempt) :
    Except FactoryError Scan :=
  match history.completion? attempt.id with
  | none => .ok scan
  | some completion => do
    let directives ← interpreter.controlDirectives flow cycle attempt completion history
    .ok (directives.foldl (Scan.apply attempts attempt) scan)

def position (flow : FlowRun) (cycle : WorkflowCycle) (history : FlowRuntimeHistory) :
    Except FactoryError (FlowProgress × OrdSet FactoryKey) := do
  let attempts := cycleAttempts history flow cycle
  if attempts.isEmpty then
    let entry ← interpreter.cycleEntry flow cycle history
    .ok (.node entry, OrdSet.ofList [entry])
  else
    let pending := attempts.filter (isPending history attempts)
    let pendingKeys := OrdSet.ofList (pending.map (·.nodeKey))
    let scan ← attempts.foldlM (interpreter.scanAttempt flow cycle history attempts)
      ⟨pendingKeys, none, none⟩
    match scan.restart with
    | some (node, source) =>
      .ok (match pending.head? with
        | some row => .node row.nodeKey
        | none => .restartCycle node source, pendingKeys)
    | none =>
      .ok (match pending.head?, scan.ready.rows.head?, scan.terminal with
        | some row, _, _ => .node row.nodeKey
        | none, some node, _ => .node node
        | none, none, some (_, key, source) => .terminal key source
        | none, none, none => .waiting, scan.ready)

/-- Reconstructs one Flow's current position without re-executing historical edges. -/
def progress (flow : FlowRun) (cycle : WorkflowCycle) (history : FlowRuntimeHistory) :
    Except FactoryError FlowProgress := do
  let position ← interpreter.position flow cycle history
  .ok position.1

/-- All eligible nodes, including unfinished attempts. -/
def readyNodes (flow : FlowRun) (cycle : WorkflowCycle) (history : FlowRuntimeHistory) :
    Except FactoryError (OrdSet FactoryKey) := do
  let position ← interpreter.position flow cycle history
  .ok position.2

end FlowInterpreter

end OctaCity.Factory.Flow
