/-
  OctaCity.Factory.Flow.Runtime

  Append-only runtime rows of an admitted Flow (octacity-server-factory,
  `flow/runtime.rs`, `flow/stop.rs`): Flow Runs, workflow cycles, Node
  Attempts, their completions and technical stops, and the constructors that
  check them.  Digests of inputs, outputs and whole rows are not read by any
  modelled function and are left out.
-/
import OctaCity.Factory.Flow.Validation

namespace OctaCity.Factory.Flow

open Lib

def maxFactoryActiveRuns : Nat := 10000

/-! ## Flow Runs and cycles -/

/-- Exact parent call that instantiated one nested Flow Run. -/
structure FlowRunParent where
  flowRunId : FlowRunId
  nodeAttemptId : NodeAttemptId
  deriving DecidableEq

/-- One durable root or nested execution of an immutable Flow Definition. -/
structure FlowRun where
  id : FlowRunId
  factoryRunId : FactoryRunId
  definition : FlowDefinitionRef
  parent : Option FlowRunParent
  deriving DecidableEq

/-- Creates the root Flow Run while retaining the Factory Run UUID. -/
def FlowRun.root (run : FactoryRunId) (definition : FlowDefinitionRef) : FlowRun :=
  ⟨⟨run.uuid, run.nonNil⟩, run, definition, none⟩

/-- Creates one nested Flow Run from an exact subflow call attempt. -/
def FlowRun.nested (id : FlowRunId) (factoryRunId : FactoryRunId) (definition : FlowDefinitionRef)
    (parent : FlowRunParent) : FlowRun :=
  ⟨id, factoryRunId, definition, some parent⟩

/-- One append-only logical pass through a Flow Run. -/
structure WorkflowCycle where
  id : WorkflowCycleId
  flowRunId : FlowRunId
  number : WorkflowCycleNumber
  predecessor : Option WorkflowCycleId
  sourceAttemptId : Option NodeAttemptId
  deriving DecidableEq

/-- The cycle identity that retains a Flow Run UUID. -/
def FlowRunId.initialCycleId (id : FlowRunId) : WorkflowCycleId := ⟨id.uuid, id.nonNil⟩

/-- Creates the initial cycle while retaining the Flow Run UUID. -/
def WorkflowCycle.initial (flowRun : FlowRun) : WorkflowCycle :=
  ⟨FlowRunId.initialCycleId flowRun.id, flowRun.id, .initial, none, none⟩

/-! ## Node Attempts -/

/-- Exact executor selected before one Node Attempt is dispatched. -/
inductive NodeExecutionIdentity
  | builtIn
  | external (reference : ImmutableReference)
  deriving DecidableEq

def NodeExecutionIdentity.isCompatible (execution : NodeExecutionIdentity) :
    FlowNodeKind → Bool
  | .buildCommand | .reasoning | .decisionSignal | .trustedAction =>
    match execution with
    | .external _ => true
    | .builtIn => false
  | .deterministicGate | .fanOut | .join | .humanGate | .subflowCall =>
    match execution with
    | .external _ => false
    | .builtIn => true

/-- Append-only execution identity for one node in one workflow cycle. -/
structure NodeAttempt where
  id : NodeAttemptId
  factoryRunId : FactoryRunId
  flowRunId : FlowRunId
  workflowCycleId : WorkflowCycleId
  nodeKey : FactoryKey
  nodeKind : FlowNodeKind
  number : NodeAttemptNumber
  budget : BudgetLimit
  startedAt : Timestamp
  deadline : Timestamp
  execution : NodeExecutionIdentity
  ownership : FactoryClaimOwnership
  retryOf : Option NodeAttemptId
  deriving DecidableEq

/-- Caller-selected fields of one Node Attempt. -/
structure NodeAttemptInput where
  id : NodeAttemptId
  nodeKey : FactoryKey
  nodeKind : FlowNodeKind
  number : NodeAttemptNumber
  budget : BudgetLimit
  startedAt : Timestamp
  deadline : Timestamp
  execution : NodeExecutionIdentity
  ownership : FactoryClaimOwnership

/-- The definition declares the node with exactly this kind and budget. -/
def FlowDefinition.declaresNode (definition : FlowDefinition) (key : FactoryKey)
    (kind : FlowNodeKind) (budget : BudgetLimit) : Bool :=
  match definition.node key with
  | some node => node.kind = kind ∧ budget = node.budget
  | none => false

namespace NodeAttempt

/-- Timestamps span years 1 to 9999, so the difference never overflows. -/
def validateExecutionWindow (attempt : NodeAttempt) : Except FactoryError Unit := do
  attempt.ownership.claim.verifyFence attempt.ownership.claim.fence attempt.startedAt
  if attempt.deadline ≤ attempt.startedAt ∨
      attempt.budget.maxElapsedMillis <
        (attempt.deadline.unixMillis - attempt.startedAt.unixMillis).toNat then
    .error (.invalidReference "Node Attempt execution window")
  else .ok ()

/-- Creates one generic attempt for a node declared by the pinned definition. -/
def new (flowRun : FlowRun) (cycle : WorkflowCycle) (definition : FlowDefinition)
    (input : NodeAttemptInput) : Except FactoryError NodeAttempt :=
  if flowRun.definition ≠ definition.reference ∨ cycle.flowRunId ≠ flowRun.id ∨
      ¬ definition.declaresNode input.nodeKey input.nodeKind input.budget ∨
      ¬ input.execution.isCompatible input.nodeKind then
    .error (.invalidReference "Node Attempt definition")
  else do
    let attempt : NodeAttempt :=
      { id := input.id
        factoryRunId := flowRun.factoryRunId
        flowRunId := flowRun.id
        workflowCycleId := cycle.id
        nodeKey := input.nodeKey
        nodeKind := input.nodeKind
        number := input.number
        budget := input.budget
        startedAt := input.startedAt
        deadline := input.deadline
        execution := input.execution
        ownership := input.ownership
        retryOf := none }
    attempt.validateExecutionWindow
    .ok attempt

/-- Binds a new technical execution to the exact failed predecessor. -/
def withRetryOf (attempt previous : NodeAttempt) : Except FactoryError NodeAttempt :=
  if attempt.factoryRunId ≠ previous.factoryRunId ∨ attempt.flowRunId ≠ previous.flowRunId ∨
      attempt.workflowCycleId ≠ previous.workflowCycleId ∨ attempt.nodeKey ≠ previous.nodeKey ∨
      attempt.nodeKind ≠ previous.nodeKind ∨ attempt.execution ≠ previous.execution ∨
      attempt.budget ≠ previous.budget ∨ attempt.number ≤ previous.number ∨
      attempt.startedAt < previous.startedAt then
    .error (.invalidReference "Node execution retry predecessor")
  else .ok { attempt with retryOf := some previous.id }

def acceptsCompletionOwner (attempt : NodeAttempt) (owner : FactoryClaimOwnership) : Bool :=
  (owner.owner = attempt.ownership.owner ∧
    attempt.ownership.claim.claimedAt ≤ owner.claim.claimedAt) ∨
  attempt.ownership.claim.expiresAt ≤ owner.claim.claimedAt

/-- Verifies a replacement fence for the same worker, or a successor after lease expiry. -/
def verifyObserver (attempt : NodeAttempt) (owner : FactoryClaimOwnership) (time : Timestamp) :
    Except FactoryError Unit :=
  if ¬ attempt.acceptsCompletionOwner owner then
    .error (.invalidReference "Node Attempt observer")
  else owner.claim.verifyFence owner.claim.fence time

end NodeAttempt

/-- Binds a new monotonic cycle to an exact preceding attempt. -/
def WorkflowCycle.restart (id : WorkflowCycleId) (previous : WorkflowCycle)
    (source : NodeAttempt) : Except FactoryError WorkflowCycle :=
  if source.flowRunId ≠ previous.flowRunId ∨ source.workflowCycleId ≠ previous.id then
    .error (.invalidReference "workflow cycle source")
  else do
    let number ← okOr previous.number.next? (.invalidReference "workflow cycle number")
    .ok ⟨id, previous.flowRunId, number, some previous.id, some source.id⟩

/-! ## Completions and stops -/

/-- Immutable terminal observation of one Node Attempt. -/
structure NodeAttemptCompletion where
  nodeAttemptId : NodeAttemptId
  flowRunId : FlowRunId
  workflowCycleId : WorkflowCycleId
  nodeKey : FactoryKey
  outcome : FactoryKey
  outputSchema : ImmutableReference
  ownership : FactoryClaimOwnership
  usage : BudgetUsage
  observedAt : Timestamp
  deriving DecidableEq

/-- Caller-owned fields for one immutable typed Node Attempt result. -/
structure NodeAttemptCompletionInput where
  outcome : FactoryKey
  outputSchema : ImmutableReference
  ownership : FactoryClaimOwnership
  usage : BudgetUsage
  observedAt : Timestamp

/-- The node declares the outcome with exactly this schema. -/
def FlowNodeDefinition.declares (node : FlowNodeDefinition) (outcome : FactoryKey)
    (schema : ImmutableReference) : Bool :=
  match node.outcome outcome with
  | some declared => declared.schema = schema
  | none => false

/-- Validates one typed outcome against the exact immutable node declaration. -/
def NodeAttemptCompletion.new (attempt : NodeAttempt) (definition : FlowDefinition)
    (input : NodeAttemptCompletionInput) : Except FactoryError NodeAttemptCompletion := do
  let node ← okOr (definition.node attempt.nodeKey)
    (.invalidReference "Node Attempt completion node")
  if node.kind ≠ attempt.nodeKind ∨ ¬ node.declares input.outcome input.outputSchema ∨
      ¬ attempt.acceptsCompletionOwner input.ownership then
    .error (.invalidReference "Node Attempt completion outcome")
  else
    input.ownership.claim.verifyFence input.ownership.claim.fence input.observedAt
    input.usage.validate attempt.budget
    .ok
      { nodeAttemptId := attempt.id
        flowRunId := attempt.flowRunId
        workflowCycleId := attempt.workflowCycleId
        nodeKey := attempt.nodeKey
        outcome := input.outcome
        outputSchema := input.outputSchema
        ownership := input.ownership
        usage := input.usage
        observedAt := input.observedAt }

/-- Technical reason for a stopped operation; it never selects a business outcome. -/
inductive FlowNodeStopReason
  | cancelled (requestedAt : Timestamp)
  | executionFailed
  deriving DecidableEq

/-- A cancellation was requested while the attempt ran. -/
def FlowNodeStopReason.isWithin (reason : FlowNodeStopReason) (startedAt observedAt : Timestamp) :
    Bool :=
  match reason with
  | .cancelled requestedAt => startedAt ≤ requestedAt ∧ requestedAt ≤ observedAt
  | .executionFailed => true

/-- Retained technical stop receipt without routing authority. -/
structure FlowNodeStop where
  nodeAttemptId : NodeAttemptId
  ownership : FactoryClaimOwnership
  reason : FlowNodeStopReason
  observedAt : Timestamp
  usage : BudgetUsage
  deriving DecidableEq

/-- Binds a confirmed stop and its measured consumption to the current observer. -/
def FlowNodeStop.new (attempt : NodeAttempt) (ownership : FactoryClaimOwnership)
    (reason : FlowNodeStopReason) (observedAt : Timestamp) (usage : BudgetUsage) :
    Except FactoryError FlowNodeStop := do
  attempt.verifyObserver ownership observedAt
  if observedAt < attempt.startedAt ∨ ¬ reason.isWithin attempt.startedAt observedAt ∨
      usage.attempts ≠ 0 then
    .error (invalid "Node stop receipt")
  else if attempt.budget.maxOutputBytes < usage.outputBytes then
    .error (invalid "Node stop receipt")
  else .ok ⟨attempt.id, ownership, reason, observedAt, usage⟩

/-! ## Histories and admission -/

/-- Authoritative Flow runtime rows validated as one aggregate. -/
structure FlowRuntimeHistory where
  stops : List FlowNodeStop
  flowRuns : List FlowRun
  cycles : List WorkflowCycle
  attempts : List NodeAttempt
  completions : List NodeAttemptCompletion
  deriving DecidableEq

/-- Immutable closure and initial execution records pinned at admission. -/
structure AdmittedFlow where
  closure : PinnedFlowDefinitionClosure
  limits : FlowAdmissionLimits
  maxActiveRuns : Nat
  maxActiveNodes : Nat
  rootRun : FlowRun
  initialCycle : WorkflowCycle

/-- Checks on the pins, schemas and pools frozen with an admission. -/
structure AdmissionChecks extends DefinitionChecks where
  codePins : AdmittedFlow → Except FactoryError Unit
  dataSchemas : AdmittedFlow → Except FactoryError Unit
  poolSettings : AdmittedFlow → Except FactoryError Unit

namespace AdmittedFlow

def validateRootBindings (admitted : AdmittedFlow) : Except FactoryError Unit :=
  if admitted.rootRun.definition ≠ admitted.closure.root ∨ admitted.rootRun.parent.isSome ∨
      admitted.initialCycle.flowRunId ≠ admitted.rootRun.id ∨
      admitted.initialCycle.number ≠ .initial ∨ admitted.initialCycle.predecessor.isSome then
    .error (.invalidReference "admitted Flow root")
  else .ok ()

def validateWipLimits (admitted : AdmittedFlow) : Except FactoryError Unit :=
  if admitted.maxActiveRuns = 0 ∨ maxFactoryActiveRuns < admitted.maxActiveRuns then
    .error (invalid "max_active_runs")
  else if admitted.maxActiveNodes = 0 ∨ maxFactoryActiveNodes < admitted.maxActiveNodes then
    .error (invalid "max_active_nodes")
  else if admitted.maxActiveNodes < admitted.limits.maxWip then
    .error (invalid "admitted Flow configuration WIP")
  else .ok ()

/-- Revalidates persisted root and cycle bindings and the exact closure. -/
def validated (checks : AdmissionChecks) (admitted : AdmittedFlow) :
    Except FactoryError ValidatedFlowDefinitionClosure := do
  admitted.validateRootBindings
  checks.codePins admitted
  admitted.validateWipLimits
  checks.dataSchemas admitted
  checks.poolSettings admitted
  ValidatedFlowDefinitionClosure.new checks.toDefinitionChecks admitted.closure admitted.limits

end AdmittedFlow

end OctaCity.Factory.Flow
