/-
  OctaCity.Factory.Flow.History

  Validation of the complete Flow runtime aggregate against one admitted
  closure (octacity-server-factory, `flow/history.rs`): the single structural
  check used before a transition is committed and after a store has
  reconstructed a snapshot.
-/
import OctaCity.Factory.Flow.Interpreter

namespace OctaCity.Factory.Flow

open Lib

/-- Rows by their identity; a repeated identity is reported under one field. -/
def uniqueBy {α κ : Type} [LinearOrder κ] (key : α → κ) (field : String) (rows : List α) :
    Except FactoryError (Table key) :=
  (Table.empty : Table key).insertAll (fun _ => invalid field) rows

/-! ## Usage and capacity -/

namespace FlowRuntimeHistory

/-- The part of a stop's consumption above the reservation of its attempt. -/
def stopOverrun (stop : FlowNodeStop) (limit : BudgetLimit) : BudgetUsage :=
  { tokens := stop.usage.tokens - limit.maxTokens
    elapsedMillis := stop.usage.elapsedMillis - limit.maxElapsedMillis
    costMicroUnits :=
      { knownMicroUnits := stop.usage.costMicroUnits.knownMicroUnits - limit.maxCostMicroUnits } }

def stopOverrunsByFlow (history : FlowRuntimeHistory) : Except FactoryError UsageByFlow :=
  history.stops.foldlM
    (fun overruns stop => do
      let attempt ← okOr (history.attempt? stop.nodeAttemptId) (invalid "Node stop attempt")
      addFlowUsage overruns attempt.flowRunId (stopOverrun stop attempt.budget))
    (Table.empty : UsageByFlow)

/-- Validates journal consumption, including verified overruns of stopped operations. -/
def validateBudgetUsage (history : FlowRuntimeHistory) (admitted : AdmittedFlow)
    (usage : BudgetUsage) : Except FactoryError Unit := do
  let overruns ← history.stopOverrunsByFlow
  let overrun ← sumUsage (overruns.rows.map (·.2))
  let measured ← okOr (usage.checkedSub overrun) (invalid "stopped usage accounting")
  measured.validate admitted.limits.budget

/-- Executable attempts that have neither a result nor a confirmed stop. -/
def activeNodes (history : FlowRuntimeHistory) : List NodeAttempt :=
  history.attempts.filter fun attempt =>
    attempt.nodeKind ≠ .subflowCall ∧ FlowInterpreter.isUnfinished history attempt

def activeNodeCount (history : FlowRuntimeHistory) : Nat := history.activeNodes.length

end FlowRuntimeHistory

def validateFlowBudgets (admitted : AdmittedFlow) (history : FlowRuntimeHistory)
    (usage : UsageByFlow) : Except FactoryError Unit := do
  let total ← sumUsage (usage.rows.map (·.2))
  history.validateBudgetUsage admitted total
  let overruns ← history.stopOverrunsByFlow
  forM history.flowRuns fun flowRun => do
    let definition ← okOr (admitted.closure.definition flowRun.definition)
      (invalid "Flow Run definition")
    let measured ← okOr ((usage.get flowRun.id).checkedSub (overruns.get flowRun.id))
      (invalid "stopped Flow usage accounting")
    measured.validate definition.execution.budget

/-! ## Flow Runs and cycles -/

/-- The exact nested definition an attempt of the Flow Run calls. -/
def nestedDefinition (validated : ValidatedFlowDefinitionClosure) (parentRun : FlowRun)
    (parentAttempt : NodeAttempt) : Option FlowDefinitionRef := do
  let definition ← validated.closure.definition parentRun.definition
  let node ← definition.node parentAttempt.nodeKey
  if node.kind = .subflowCall then node.subflow else none

def validateParent (validated : ValidatedFlowDefinitionClosure) (flowRuns : Table FlowRun.id)
    (attempts : Table NodeAttempt.id) (history : FlowRuntimeHistory)
    (definition : FlowDefinition) (parent : FlowRunParent) : Except FactoryError Unit := do
  if history.flowRuns.countP (fun row => row.parent = some parent) ≠ 1 then
    .error (invalid "unique nested Flow call")
  else
    let parentRun ← okOr (flowRuns.find? parent.flowRunId) (invalid "nested Flow parent Run")
    let parentAttempt ← okOr (attempts.find? parent.nodeAttemptId)
      (invalid "nested Flow parent attempt")
    if parentAttempt.flowRunId ≠ parentRun.id ∨
        nestedDefinition validated parentRun parentAttempt ≠ some definition.reference then
      .error (invalid "nested Flow definition")
    else .ok ()

def validateFlowRun (admitted : AdmittedFlow) (validated : ValidatedFlowDefinitionClosure)
    (flowRuns : Table FlowRun.id) (attempts : Table NodeAttempt.id)
    (history : FlowRuntimeHistory) (flowRun : FlowRun) : Except FactoryError Unit := do
  let definition ← okOr (validated.closure.definition flowRun.definition)
    (invalid "Flow Run definition")
  if flowRun.factoryRunId ≠ admitted.rootRun.factoryRunId then
    .error (invalid "Flow Run Factory Run")
  else
    match flowRun.parent with
    | none => .ok ()
    | some parent => validateParent validated flowRuns attempts history definition parent

def validateCycleSequence (validated : ValidatedFlowDefinitionClosure)
    (cycles : Table WorkflowCycle.id) (history : FlowRuntimeHistory) (flowRun : FlowRun)
    (cycle : WorkflowCycle) : Except FactoryError Unit :=
  match cycle.predecessor with
  | none => .ok ()
  | some predecessor => do
    let previous ← okOr (cycles.find? predecessor) (invalid "workflow cycle predecessor")
    if previous.flowRunId ≠ flowRun.id ∨ previous.number.next? ≠ some cycle.number ∨
        cycles.rows.countP (fun row => row.predecessor = some predecessor) ≠ 1 then
      .error (invalid "workflow cycle sequence")
    else
      let _ ← FlowInterpreter.cycleEntry ⟨validated⟩ flowRun cycle history
      .ok ()

/-- A first cycle retains the identity of its Flow Run and has no source. -/
def isInitialCycle (flowRun : FlowRun) (cycle : WorkflowCycle) : Bool :=
  cycle.number = .initial ∧ cycle.id.uuid = flowRun.id.uuid ∧ cycle.sourceAttemptId = none

def validateRunCycles (validated : ValidatedFlowDefinitionClosure)
    (cycles : Table WorkflowCycle.id) (history : FlowRuntimeHistory) (flowRun : FlowRun) :
    Except FactoryError Unit := do
  let runCycles := cycles.rows.filter fun cycle => cycle.flowRunId = flowRun.id
  match runCycles.filter fun cycle => cycle.predecessor = none with
  | [initial] =>
    if ¬ isInitialCycle flowRun initial then .error (invalid "Flow Run initial cycle")
    else forM runCycles (validateCycleSequence validated cycles history flowRun)
  | _ => .error (invalid "Flow Run initial cycle")

def validateCycles (admitted : AdmittedFlow) (validated : ValidatedFlowDefinitionClosure)
    (flowRuns : Table FlowRun.id) (cycles : Table WorkflowCycle.id)
    (history : FlowRuntimeHistory) : Except FactoryError Unit := do
  if cycles.find? admitted.initialCycle.id ≠ some admitted.initialCycle then
    .error (invalid "initial workflow cycle")
  else forM flowRuns.rows (validateRunCycles validated cycles history)

/-! ## Attempts -/

def validateAttempt (validated : ValidatedFlowDefinitionClosure) (flowRuns : Table FlowRun.id)
    (cycles : Table WorkflowCycle.id) (attempt : NodeAttempt) : Except FactoryError Unit := do
  let flowRun ← okOr (flowRuns.find? attempt.flowRunId) (invalid "Node Attempt Flow Run")
  let cycle ← okOr (cycles.find? attempt.workflowCycleId) (invalid "Node Attempt workflow cycle")
  let node ← okOr ((validated.closure.definition flowRun.definition).bind
    fun definition => definition.node attempt.nodeKey) (invalid "Node Attempt definition")
  if attempt.factoryRunId ≠ flowRun.factoryRunId ∨ cycle.flowRunId ≠ flowRun.id then
    .error (invalid "Node Attempt ownership")
  else if attempt.nodeKind ≠ node.kind ∨ attempt.budget ≠ node.budget then
    .error (invalid "Node Attempt declaration")
  else if ¬ attempt.execution.isCompatible attempt.nodeKind then
    .error (invalid "Node Attempt executor")
  else attempt.validateExecutionWindow

/-- The attempts of a Flow Run in execution order. -/
def runAttempts (history : FlowRuntimeHistory) (flow : FlowRunId) : List NodeAttempt :=
  (history.attempts.filter fun attempt => attempt.flowRunId = flow).insertionSort
    fun left right => left.number ≤ right.number

/-- The numbers of a Flow Run, sorted, are 1, 2, and so on. -/
def isNumberedInSequence (history : FlowRuntimeHistory) (flow : FlowRunId) : Bool :=
  (runAttempts history flow).map (·.number.value) =
    List.range' 1 (runAttempts history flow).length

def isNumberedThrough (attempts : Table NodeAttempt.id) (id : NodeAttemptId)
    (producer : NodeAttempt) : Bool :=
  match attempts.find? id with
  | some attempt => attempt.number ≤ producer.number
  | none => false

/-- Traversals at or before the producer, even when the journal already
    contains completions from other ready branches. -/
def traversalsThrough (history : FlowRuntimeHistory) (attempts : Table NodeAttempt.id)
    (completion : NodeAttemptCompletion) (producer : NodeAttempt) : Nat :=
  history.completions.countP fun row =>
    row.flowRunId = completion.flowRunId ∧ row.nodeKey = completion.nodeKey ∧
    row.outcome = completion.outcome ∧ isNumberedThrough attempts row.nodeAttemptId producer

/-- Follows the retries of an attempt, of which at most `maximum` are allowed. -/
def validateRetryDepth (attempts : Table NodeAttempt.id) :
    Nat → NodeAttempt → Except FactoryError Unit
  | maximum, current =>
    match current.retryOf with
    | none => .ok ()
    | some parent =>
      match maximum with
      | 0 => .error (invalid "Node retry bound")
      | maximum + 1 =>
        match attempts.find? parent with
        | none => .error (invalid "Node retry predecessor")
        | some previous => validateRetryDepth attempts maximum previous

def validateRetry (definition : FlowDefinition) (attempts : Table NodeAttempt.id)
    (history : FlowRuntimeHistory) (attempt : NodeAttempt) (previousId : NodeAttemptId) :
    Except FactoryError Unit := do
  let previous ← okOr (attempts.find? previousId) (invalid "Node retry predecessor")
  let stopped ← okOr ((history.stops.find? (·.nodeAttemptId = previousId)).filter
    fun row => row.reason = .executionFailed) (invalid "Node retry confirmed failure")
  let rebound ← attempt.withRetryOf previous
  if rebound ≠ attempt ∨ attempt.startedAt < stopped.observedAt ∨
      history.attempts.countP (fun row => row.retryOf = some previousId) ≠ 1 then
    .error (invalid "Node retry lineage")
  else
    let node ← okOr (definition.node attempt.nodeKey) (invalid "Node retry declaration")
    validateRetryDepth attempts node.maxExecutionRetries attempt

/-- A completed earlier attempt of the cycle declares a route to the node. -/
def isDeclaredSuccessor (definition : FlowDefinition) (attempts : Table NodeAttempt.id)
    (history : FlowRuntimeHistory) (cycle : WorkflowCycle) (earlier : List NodeAttempt)
    (key : FactoryKey) : Bool :=
  earlier.any fun predecessor =>
    predecessor.workflowCycleId = cycle.id &&
    match history.completion? predecessor.id with
    | none => false
    | some completion =>
      (FlowInterpreter.declaredSuccessorKeys definition predecessor.nodeKey completion.outcome
        (traversalsThrough history attempts completion predecessor)).rows.contains key

def validateRoute (validated : ValidatedFlowDefinitionClosure) (definition : FlowDefinition)
    (cycles : Table WorkflowCycle.id) (attempts : Table NodeAttempt.id)
    (history : FlowRuntimeHistory) (flowRun : FlowRun) (earlier : List NodeAttempt)
    (attempt : NodeAttempt) : Except FactoryError Unit :=
  match attempt.retryOf with
  | some previousId => validateRetry definition attempts history attempt previousId
  | none => do
    let cycle ← okOr (cycles.find? attempt.workflowCycleId) (invalid "Node cycle")
    if ¬ earlier.any fun previous => previous.workflowCycleId = cycle.id then
      let entry ← FlowInterpreter.cycleEntry ⟨validated⟩ flowRun cycle history
      if attempt.nodeKey ≠ entry then .error (invalid "Flow entry attempt") else .ok ()
    else if ¬ isDeclaredSuccessor definition attempts history cycle earlier attempt.nodeKey then
      .error (invalid "Flow Node Attempt route")
    else .ok ()

def validateRunAttempts (validated : ValidatedFlowDefinitionClosure)
    (cycles : Table WorkflowCycle.id) (attempts : Table NodeAttempt.id)
    (history : FlowRuntimeHistory) (flowRun : FlowRun) : Except FactoryError Unit := do
  let definition ← okOr (validated.closure.definition flowRun.definition)
    (invalid "Flow Run definition")
  forEarlier (validateRoute validated definition cycles attempts history flowRun) []
    (runAttempts history flowRun.id)

def validateAttempts (validated : ValidatedFlowDefinitionClosure) (flowRuns : Table FlowRun.id)
    (cycles : Table WorkflowCycle.id) (attempts : Table NodeAttempt.id)
    (history : FlowRuntimeHistory) : Except FactoryError Unit := do
  forM attempts.rows (validateAttempt validated flowRuns cycles)
  if history.attempts.any fun attempt => !isNumberedInSequence history attempt.flowRunId then
    .error (invalid "Node Attempt sequence")
  else forM flowRuns.rows (validateRunAttempts validated cycles attempts history)

/-! ## Completions and stops -/

def FlowDefinition.declaresOutcome (definition : FlowDefinition)
    (completion : NodeAttemptCompletion) : Bool :=
  match definition.node completion.nodeKey with
  | some node => node.declares completion.outcome completion.outputSchema
  | none => false

def validateCompletion (validated : ValidatedFlowDefinitionClosure)
    (flowRuns : Table FlowRun.id) (attempts : Table NodeAttempt.id)
    (earlier : List NodeAttemptCompletion) (completion : NodeAttemptCompletion) :
    Except FactoryError Unit := do
  let attempt ← okOr (attempts.find? completion.nodeAttemptId)
    (invalid "Node Attempt completion attempt")
  let definition ← okOr ((flowRuns.find? attempt.flowRunId).bind
    fun flowRun => validated.closure.definition flowRun.definition)
    (invalid "Node Attempt completion definition")
  if (earlier.any fun row => row.nodeAttemptId = completion.nodeAttemptId) ∨
      attempt.flowRunId ≠ completion.flowRunId ∨
      attempt.workflowCycleId ≠ completion.workflowCycleId ∨
      attempt.nodeKey ≠ completion.nodeKey ∨
      ¬ attempt.acceptsCompletionOwner completion.ownership ∨
      completion.ownership.claim.verifyFence completion.ownership.claim.fence
        completion.observedAt ≠ .ok () ∨
      completion.usage.validate attempt.budget ≠ .ok () ∨
      ¬ definition.declaresOutcome completion then
    .error (invalid "Node Attempt completion")
  else .ok ()

def validateStop (attempts : Table NodeAttempt.id) (history : FlowRuntimeHistory)
    (earlier : List FlowNodeStop) (receipt : FlowNodeStop) : Except FactoryError Unit := do
  let attempt ← okOr (attempts.find? receipt.nodeAttemptId) (invalid "Node stop owner")
  if (earlier.any fun row => row.nodeAttemptId = receipt.nodeAttemptId) ∨
      history.isCompleted attempt.id then
    .error (invalid "unique Node stop")
  else
    attempt.verifyObserver receipt.ownership receipt.observedAt
    if receipt.usage.attempts ≠ 0 ∨ attempt.budget.maxOutputBytes < receipt.usage.outputBytes then
      .error (invalid "Node stop usage")
    else .ok ()

/-- Validates the complete Flow runtime aggregate against one admitted closure. -/
def validateFlowRuntimeHistory (checks : AdmissionChecks) (admitted : AdmittedFlow)
    (history : FlowRuntimeHistory) : Except FactoryError Unit := do
  let validated ← admitted.validated checks
  let flowRuns ← uniqueBy FlowRun.id "Flow Run identity" history.flowRuns
  let cycles ← uniqueBy WorkflowCycle.id "workflow cycle identity" history.cycles
  let attempts ← uniqueBy NodeAttempt.id "Node Attempt identity" history.attempts
  if flowRuns.find? admitted.rootRun.id ≠ some admitted.rootRun ∨
      flowRuns.rows.countP (fun flowRun => flowRun.parent = none) ≠ 1 then
    .error (invalid "Flow runtime root")
  else
    forM flowRuns.rows (validateFlowRun admitted validated flowRuns attempts history)
    validateCycles admitted validated flowRuns cycles history
    validateAttempts validated flowRuns cycles attempts history
    forEarlier (validateCompletion validated flowRuns attempts) [] history.completions
    forEarlier (validateStop attempts history) [] history.stops
    if validated.limits.maxWip < history.activeNodeCount then
      .error (invalid "Flow aggregate WIP")
    else
      let usage ← history.observedUsageByFlow
      validateFlowBudgets admitted history usage

end OctaCity.Factory.Flow
