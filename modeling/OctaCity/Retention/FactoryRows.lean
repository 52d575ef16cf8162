/-
  OctaCity.Retention.FactoryRows

  The rows that a Factory Run owns (migrations 0047 to 0102), with the columns
  their foreign keys and the cleanup statements of `factory_retention.rs` read.

  A foreign key is checked at the end of the statement that deletes the row it
  refers to; none of these is deferrable, and none cascades.
-/
import OctaCity.Domain.Timestamp
import OctaCity.Factory.Value
import OctaCity.Lib.PagedDeletion

namespace OctaCity.Retention

open Domain Lib
open Factory (FactoryRunId FlowRunId NodeAttemptId WorkflowCycleId FactoryDigest)

/-! ## Rows -/

/-- An artifact or an uploaded execution input. -/
structure ArtifactId where
  uuid : Nat
  deriving DecidableEq

instance : LinearOrder ArtifactId :=
  LinearOrder.lift' ArtifactId.uuid fun a b h => by
    cases a
    cases b
    simpa using h

/-- The roles of an artifact reference, in the order of their texts. -/
inductive FactoryArtifactRole
  | acceptance
  | buildOutput
  | changesetBundle
  | changesetManifest
  | evidence
  | specification
  | task
  deriving DecidableEq

/-- The tables of a Run's rows, in the order their rows are deleted. -/
inductive FactoryTable
  | actionItems
  | actionProjections
  | decisionSignalReceipts
  | decisionSignalRequests
  | executionInputs
  | roleExecutionPackages
  | executionInputManifests
  | nodeStops
  | flowBuildExecutions
  | flowBuildIntents
  | flowRecords
  | flowProfileSelections
  | flowInputs
  | flowIncoming
  | phasePoolSelections
  | phasePoolEntries
  | runCurrent
  | outboxRecords
  | auditLinks
  | runControls
  | artifactReferences
  | nodeAttemptCompletions
  | nodeAttempts
  | workflowCycles
  | flowRuns
  | runBudgets
  | lifecycleCheckpoints
  | runClaims
  deriving DecidableEq

/-- One row. The Run of an execution input is that of its manifest; the
    `released_at` column of an artifact reference is kept apart. -/
inductive FactoryRow
  | actionItem (run : FactoryRunId) (nodeAttempt : NodeAttemptId)
  | actionProjection (run : FactoryRunId)
  | decisionSignalReceipt (request : Nat) (run : FactoryRunId) (nodeAttempt : NodeAttemptId)
      (input : FactoryDigest)
  | decisionSignalRequest (request : Nat) (run : FactoryRunId) (nodeAttempt : NodeAttemptId)
      (input : FactoryDigest)
  | executionInput (artifact : ArtifactId) (run : FactoryRunId) (operation : FactoryDigest)
      (deletedAt : Option Timestamp)
  | roleExecutionPackage (operation : FactoryDigest) (run : FactoryRunId)
  | executionInputManifest (operation : FactoryDigest) (run : FactoryRunId)
  | nodeStop (run : FactoryRunId) (nodeAttempt : NodeAttemptId) (execution : Option FactoryDigest)
  | flowBuildExecution (run : FactoryRunId) (id : FactoryDigest) (nodeAttempt : NodeAttemptId)
      (operation : FactoryDigest)
  | flowBuildIntent (run : FactoryRunId) (nodeAttempt : NodeAttemptId) (operation : FactoryDigest)
      (input : FactoryDigest)
  | flowRecord (run : FactoryRunId) (nodeAttempt : NodeAttemptId) (input : FactoryDigest)
  | flowProfileSelection (run : FactoryRunId) (id : FactoryDigest) (input : FactoryDigest)
  | flowInput (run : FactoryRunId) (id : FactoryDigest) (flowRun : FlowRunId)
      (cycle : WorkflowCycleId)
  | flowIncoming (run : FactoryRunId)
  | phasePoolSelection (entry : FactoryDigest) (run : FactoryRunId) (flowRun : FlowRunId)
      (cycle : WorkflowCycleId) (claim : FactoryDigest)
  | phasePoolEntry (id : FactoryDigest) (run : FactoryRunId) (flowRun : FlowRunId)
      (cycle : WorkflowCycleId)
  | runCurrent (run : FactoryRunId) (claim : Option FactoryDigest) (budget : FactoryDigest)
      (lifecycleCheckpoint : FactoryDigest)
  | outboxRecord (id : FactoryDigest) (run : FactoryRunId)
  | auditLink (id : FactoryDigest) (run : FactoryRunId)
  | runControl (id : FactoryDigest) (run : FactoryRunId)
  | artifactReference (run : FactoryRunId) (artifact : ArtifactId) (role : FactoryArtifactRole)
  | nodeAttemptCompletion (id : FactoryDigest) (nodeAttempt : NodeAttemptId) (run : FactoryRunId)
  | nodeAttempt (id : NodeAttemptId) (run : FactoryRunId) (flowRun : FlowRunId)
      (workflowCycle : WorkflowCycleId)
  | workflowCycle (id : WorkflowCycleId) (run : FactoryRunId) (flowRun : FlowRunId)
      (predecessor : Option WorkflowCycleId) (sourceAttempt : Option NodeAttemptId)
  | flowRun (id : FlowRunId) (run : FactoryRunId) (parentFlowRun : Option FlowRunId)
      (parentNodeAttempt : Option NodeAttemptId)
  | runBudget (id : FactoryDigest) (run : FactoryRunId)
  | lifecycleCheckpoint (id : FactoryDigest) (run : FactoryRunId)
  | runClaim (id : FactoryDigest) (run : FactoryRunId)
  deriving DecidableEq

/-- The key of a row that foreign keys refer to. -/
inductive ReferencedKey
  | actionProjection (run : FactoryRunId)
  | executionInputManifest (operation : FactoryDigest)
  | flowBuildExecution (id : FactoryDigest)
  | flowBuildIntent (run : FactoryRunId) (operation : FactoryDigest)
  | flowInput (run : FactoryRunId) (id : FactoryDigest)
  | phasePoolEntry (id : FactoryDigest)
  | nodeAttempt (id : NodeAttemptId)
  | workflowCycle (id : WorkflowCycleId)
  | flowRun (id : FlowRunId)
  | runBudget (id : FactoryDigest)
  | lifecycleCheckpoint (id : FactoryDigest)
  | runClaim (id : FactoryDigest)
  deriving DecidableEq

namespace FactoryRow

def table : FactoryRow → FactoryTable
  | actionItem .. => .actionItems
  | actionProjection .. => .actionProjections
  | decisionSignalReceipt .. => .decisionSignalReceipts
  | decisionSignalRequest .. => .decisionSignalRequests
  | executionInput .. => .executionInputs
  | roleExecutionPackage .. => .roleExecutionPackages
  | executionInputManifest .. => .executionInputManifests
  | nodeStop .. => .nodeStops
  | flowBuildExecution .. => .flowBuildExecutions
  | flowBuildIntent .. => .flowBuildIntents
  | flowRecord .. => .flowRecords
  | flowProfileSelection .. => .flowProfileSelections
  | flowInput .. => .flowInputs
  | flowIncoming .. => .flowIncoming
  | phasePoolSelection .. => .phasePoolSelections
  | phasePoolEntry .. => .phasePoolEntries
  | runCurrent .. => .runCurrent
  | outboxRecord .. => .outboxRecords
  | auditLink .. => .auditLinks
  | runControl .. => .runControls
  | artifactReference .. => .artifactReferences
  | nodeAttemptCompletion .. => .nodeAttemptCompletions
  | nodeAttempt .. => .nodeAttempts
  | workflowCycle .. => .workflowCycles
  | flowRun .. => .flowRuns
  | runBudget .. => .runBudgets
  | lifecycleCheckpoint .. => .lifecycleCheckpoints
  | runClaim .. => .runClaims

def runId : FactoryRow → FactoryRunId
  | actionItem run _ => run
  | actionProjection run => run
  | decisionSignalReceipt _ run _ _ => run
  | decisionSignalRequest _ run _ _ => run
  | executionInput _ run _ _ => run
  | roleExecutionPackage _ run => run
  | executionInputManifest _ run => run
  | nodeStop run _ _ => run
  | flowBuildExecution run _ _ _ => run
  | flowBuildIntent run _ _ _ => run
  | flowRecord run _ _ => run
  | flowProfileSelection run _ _ => run
  | flowInput run _ _ _ => run
  | flowIncoming run => run
  | phasePoolSelection _ run _ _ _ => run
  | phasePoolEntry _ run _ _ => run
  | runCurrent run _ _ _ => run
  | outboxRecord _ run => run
  | auditLink _ run => run
  | runControl _ run => run
  | artifactReference run _ _ => run
  | nodeAttemptCompletion _ _ run => run
  | nodeAttempt _ run _ _ => run
  | workflowCycle _ run _ _ _ => run
  | flowRun _ run _ _ => run
  | runBudget _ run => run
  | lifecycleCheckpoint _ run => run
  | runClaim _ run => run

def key? : FactoryRow → Option ReferencedKey
  | actionProjection run => some (.actionProjection run)
  | executionInputManifest operation _ => some (.executionInputManifest operation)
  | flowBuildExecution _ id _ _ => some (.flowBuildExecution id)
  | flowBuildIntent run _ operation _ => some (.flowBuildIntent run operation)
  | flowInput run id _ _ => some (.flowInput run id)
  | phasePoolEntry id _ _ _ => some (.phasePoolEntry id)
  | nodeAttempt id _ _ _ => some (.nodeAttempt id)
  | workflowCycle id _ _ _ _ => some (.workflowCycle id)
  | flowRun id _ _ _ => some (.flowRun id)
  | runBudget id _ => some (.runBudget id)
  | lifecycleCheckpoint id _ => some (.lifecycleCheckpoint id)
  | runClaim id _ => some (.runClaim id)
  | _ => none

/-- The rows that the foreign keys of a row refer to. -/
def references : FactoryRow → List ReferencedKey
  | actionItem run _ => [.actionProjection run]
  | decisionSignalReceipt _ run attempt input => [.nodeAttempt attempt, .flowInput run input]
  | decisionSignalRequest _ run attempt input => [.nodeAttempt attempt, .flowInput run input]
  | executionInput _ _ operation _ => [.executionInputManifest operation]
  | roleExecutionPackage operation run => [.flowBuildIntent run operation]
  | executionInputManifest operation run => [.flowBuildIntent run operation]
  | nodeStop _ attempt execution => .nodeAttempt attempt :: execution.toList.map .flowBuildExecution
  | flowBuildExecution run _ attempt operation =>
    [.nodeAttempt attempt, .flowBuildIntent run operation]
  | flowBuildIntent run attempt _ input => [.nodeAttempt attempt, .flowInput run input]
  | flowRecord run attempt input => [.nodeAttempt attempt, .flowInput run input]
  | flowProfileSelection run _ input => [.flowInput run input]
  | flowInput _ _ flow cycle => [.flowRun flow, .workflowCycle cycle]
  | phasePoolSelection entry _ flow cycle claim =>
    [.phasePoolEntry entry, .flowRun flow, .workflowCycle cycle, .runClaim claim]
  | phasePoolEntry _ _ flow cycle => [.flowRun flow, .workflowCycle cycle]
  | runCurrent _ claim budget checkpoint =>
    .runBudget budget :: .lifecycleCheckpoint checkpoint :: claim.toList.map .runClaim
  | nodeAttemptCompletion _ attempt _ => [.nodeAttempt attempt]
  | nodeAttempt _ _ flow cycle => [.flowRun flow, .workflowCycle cycle]
  | workflowCycle _ _ flow predecessor source =>
    .flowRun flow :: (predecessor.toList.map .workflowCycle ++ source.toList.map .nodeAttempt)
  | flowRun _ _ parentFlow parentAttempt =>
    parentFlow.toList.map .flowRun ++ parentAttempt.toList.map .nodeAttempt
  | _ => []

/-- Whether a foreign key of one row refers to another row. -/
def refers (other row : FactoryRow) : Bool :=
  row.key?.any (· ∈ other.references)

/-- `deleted_at_millis IS NULL` of an execution input. -/
def isStoredInput : FactoryRow → Bool
  | executionInput _ _ _ deletedAt => deletedAt.isNone
  | _ => false

/-- `artifact_id, role` of an artifact reference. -/
def referenceOrder : FactoryRow → ArtifactId ×ₗ Nat
  | artifactReference _ artifact role => toLex (artifact, role.ctorIdx)
  | _ => toLex (⟨0⟩, 0)

end FactoryRow

/-! ## Cleanup statements -/

namespace FactoryTable

/-- The order of `DELETE_STEPS`. -/
def deleteOrder : List FactoryTable :=
  [actionItems, actionProjections, decisionSignalReceipts, decisionSignalRequests, executionInputs,
    roleExecutionPackages, executionInputManifests, nodeStops, flowBuildExecutions, flowBuildIntents,
    flowRecords, flowProfileSelections, flowInputs, flowIncoming, phasePoolSelections,
    phasePoolEntries, runCurrent, outboxRecords, auditLinks, runControls, artifactReferences,
    nodeAttemptCompletions, nodeAttempts, workflowCycles, flowRuns, runBudgets,
    lifecycleCheckpoints, runClaims]

/-- The tables whose references the `NOT EXISTS` conditions of a statement look for. -/
def guards : FactoryTable → List FactoryTable
  | actionProjections => [actionItems]
  | executionInputManifests => [executionInputs]
  | flowInputs => [flowRecords, flowBuildIntents]
  | nodeAttempts => [flowRuns]
  | workflowCycles => [nodeAttempts]
  | flowRuns => [nodeAttempts, workflowCycles, flowRuns]
  | _ => []

/-- The statement that deletes a page of a Run's rows of one table. -/
def deleteStep (run : FactoryRunId) (table : FactoryTable) : DeleteStep FactoryRow where
  selects row := row.table = table ∧ row.runId = run ∧ ¬ row.isStoredInput
  blockedBy row other := other.table ∈ table.guards ∧ other.refers row

end FactoryTable

def deleteSteps (run : FactoryRunId) : List (DeleteStep FactoryRow) :=
  FactoryTable.deleteOrder.map (FactoryTable.deleteStep run)

/-- The rows satisfy their foreign keys. -/
def ForeignKeys (rows : List FactoryRow) : Prop :=
  ∀ row ∈ rows, ∀ key ∈ row.references, ∃ target ∈ rows, target.key? = some key

instance (rows : List FactoryRow) : Decidable (ForeignKeys rows) :=
  inferInstanceAs (Decidable (∀ _ ∈ _, _))

end OctaCity.Retention
