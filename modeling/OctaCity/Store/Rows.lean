/-
  OctaCity.Store.Rows

  The rows of the Build store (octacity-server-store-postgres): Agents and
  their registrations, Pools, Builds with their Attempts and Jobs, the ready
  queue, Leases, Job events and completions, cancellations, expiry claims, log
  chunks and idempotency records.

  A table is keyed by its primary key.  A `BIGINT` column is bounded, and a
  column that holds a hash is compared as the value that was hashed.
-/
import OctaCity.Domain.Timestamp
import OctaCity.Orchestrator.Reconcile
import OctaCity.Placement.Execution

namespace OctaCity.Store

open Domain Job Lib Orchestrator Pipeline

/-! ## Identities and errors -/

/-- Entities the Build transactions name in identities and errors. -/
inductive StoreEntity
  | agent
  | attempt
  | build
  | configuration
  | job
  | lease
  | logChunk
  | logIndexingWork
  | pool
  | project
  | registration
  deriving DecidableEq

/-- Opaque identity of one row; only its equality and its order are read. -/
structure StoreId (entity : StoreEntity) where
  uuid : Nat
  deriving DecidableEq

instance {entity : StoreEntity} : LinearOrder (StoreId entity) :=
  LinearOrder.lift' StoreId.uuid fun a b h => by
    cases a
    cases b
    simpa using h

abbrev AgentId := StoreId .agent
abbrev AttemptId := StoreId .attempt
abbrev BuildId := StoreId .build
abbrev BuildConfigurationId := StoreId .configuration
abbrev LeaseId := StoreId .lease
abbrev LogChunkId := StoreId .logChunk
abbrev LogIndexingWorkId := StoreId .logIndexingWork
abbrev PoolId := StoreId .pool
abbrev ProjectId := StoreId .project
abbrev RegistrationId := StoreId .registration

/-- Nonnegative `BIGINT` column. -/
abbrev Bigint := Fin (2 ^ 63)

inductive StoreOperation
  | acceptTrigger
  | appendJobEvents
  | claimReadyJob
  | completeJob
  | drainAgent
  | renewLease
  | retryBuild
  deriving DecidableEq

inductive StoreInputError
  | cyclicJobGraph
  | duplicateAllowedPool
  | duplicateDependency
  | duplicateJob
  | duplicatePipelineNode
  | emptyAllowedPools
  | emptyEventBatch
  | emptyJobGraph
  | eventBatchTooLarge
  | invalidAgentInventory
  | invalidExecutionEvidence
  | invalidLeaseWindow
  | invalidLogChunkManifest
  | invalidRetryAttempt
  | jobSpecTemplateBindingMismatch
  | nonContiguousEventBatch
  | numericOutOfRange
  | requestTooLarge
  | selfDependency
  | tooManyAllowedPools
  | tooManyDependencies
  | tooManyDependencyEdges
  | tooManyJobs
  | unknownDependency
  deriving DecidableEq

/-- Failures of a store operation; a failed transaction is rolled back. -/
inductive StoreError
  | invalidInput (operation : StoreOperation) (source : StoreInputError)
  | notFound (entity : StoreEntity)
  | conflict (entity : StoreEntity)
  | duplicate (entity : StoreEntity)
  | fenced (lease : LeaseId)
  | expired (lease : LeaseId)
  | eventGap (job : JobId) (expected actual : Nat)
  | eventsMissing (job : JobId) (durableThrough required : Nat)
  | unavailable
  deriving DecidableEq

/-- `database::number`: a value that fits its column. -/
def number (value : Nat) (operation : StoreOperation) : Except StoreError Bigint :=
  if h : value < 2 ^ 63 then .ok ⟨value, h⟩
  else .error (.invalidInput operation .numericOutOfRange)

/-! ## Agents and Pools -/

/-- One provider route of an Agent: its provider and the rest of its document. -/
structure ExecutionCapability where
  provider : String
  document : String
  deriving DecidableEq

structure AgentInventory where
  executions : List ExecutionCapability
  document : String
  deriving DecidableEq

inductive AgentState
  | online
  | offline
  | draining
  deriving DecidableEq

structure AgentRow where
  id : AgentId
  poolId : PoolId
  state : AgentState
  enabled : Bool
  version : Nat

structure RegistrationRow where
  id : RegistrationId
  agentId : AgentId
  epoch : Bigint
  inventory : AgentInventory
  executionContractVersion : Nat
  revoked : Bool
  expiresAt : Timestamp
  deriving DecidableEq

/-- Drain lifecycle controlling whether an Agent Pool accepts new Jobs. -/
inductive PoolDrainState
  | accepting
  | gracefulDrain
  | forcedDrain
  | drained
  deriving DecidableEq

inductive FairnessPolicy
  | fifo
  | configurationFair
  deriving DecidableEq

/-- The newest version of one Pool. -/
structure PoolRow where
  id : PoolId
  version : Nat
  enabled : Bool
  drainState : PoolDrainState
  admissionPolicy : String
  concurrencyLimit : Nat
  fairnessPolicy : FairnessPolicy
  publishedAt : Timestamp

/-! ## Builds, Attempts and Jobs -/

/-- The immutable configuration version a Build runs under. -/
structure ConfigurationVersion where
  id : BuildConfigurationId
  version : Nat
  jobConcurrencyLimit : Nat
  retryMaxAttempts : Nat
  retriesInfrastructure : Bool

structure BuildRow where
  id : BuildId
  projectId : ProjectId
  configuration : ConfigurationVersion
  projectJobConcurrencyLimit : Nat
  priority : Int
  factoryOrigin : Option String
  logsVisible : Bool
  state : BuildState

structure AttemptRow where
  id : AttemptId
  buildId : BuildId
  attemptNumber : Bigint
  retryOf : Option AttemptId
  state : AttemptState
  deriving DecidableEq

inductive JobRuntimePolicy
  | legacy
  | current (target : Placement.ExecutionTarget)
  deriving DecidableEq

/-- Stable server-derived intent: its bindings, its runtime and its document. -/
structure JobSpecTemplate where
  buildId : BuildId
  pipelineNodeId : String
  runtime : JobRuntimePolicy
  document : String
  deriving DecidableEq

structure SignedJobSpec where
  document : String

/-- One Job with its rows of `job_dependencies`. -/
structure JobRow where
  id : JobId
  attemptId : AttemptId
  pipelineNodeId : String
  state : JobState
  dependencies : List JobId
  dependencyPolicy : DependencyPolicy
  allowedPools : List PoolId
  requirements : String
  jobSpecTemplate : JobSpecTemplate
  signedJobSpec : Option SignedJobSpec
  infrastructureRequeues : Nat

structure ReadyQueueEntry where
  jobId : JobId
  priority : Int
  enqueueOrder : Nat
  projectId : ProjectId
  configuration : ConfigurationVersion
  allowedPools : List PoolId

structure BuildCancellationRow where
  buildId : BuildId
  attemptId : AttemptId
  cancelledJobs : List JobId
  cancellingJobs : List JobId
  attemptState : AttemptState
  buildState : BuildState

/-! ## Leases -/

inductive LeaseState
  | active
  | cancellationRequested
  | drainRequested
  | completed
  | expired
  deriving DecidableEq

/-- `CURRENT_STATES`: the states in which a Lease owns its Job. -/
def LeaseState.isCurrent : LeaseState → Bool
  | .active | .cancellationRequested | .drainRequested => true
  | .completed | .expired => false

/-- Secret opaque fence; the row keeps its hash. -/
structure LeaseFence where
  secret : Nat
  deriving DecidableEq

structure LeaseRow where
  id : LeaseId
  jobId : JobId
  poolId : PoolId
  poolVersion : Nat
  registrationId : RegistrationId
  registrationEpoch : Bigint
  fence : LeaseFence
  state : LeaseState
  leasedAt : Timestamp
  expiresAt : Timestamp

/-- A durable worker claim on one expired Lease. -/
structure WorkerClaimRow where
  leaseId : LeaseId
  owner : String
  claimedAt : Timestamp
  expiresAt : Timestamp
  completedAt : Option Timestamp

/-! ## Job events, log chunks and completions -/

/-- One immutable Job event.  Its digest covers the kind, the time and the
    canonical payload. -/
structure DurableJobEvent where
  sequence : Nat
  kind : String
  occurredAt : Timestamp
  payload : String
  deriving DecidableEq

/-- What the digest of an event covers. -/
def DurableJobEvent.digest (event : DurableJobEvent) : String × Timestamp × String :=
  (event.kind, event.occurredAt, event.payload)

structure JobEventRow where
  jobId : JobId
  leaseId : LeaseId
  event : DurableJobEvent

inductive BuildLogStream
  | stdout
  | stderr
  deriving DecidableEq

structure LogChunkManifest where
  chunkId : LogChunkId
  stream : BuildLogStream
  firstSequence : Nat
  lastSequence : Nat
  objectIdentity : String
  byteLength : Nat
  digest : String
  indexingWorkId : LogIndexingWorkId
  deriving DecidableEq

/-- A visible chunk manifest and the position of its indexing work. -/
structure LogChunkRow where
  manifest : LogChunkManifest
  buildId : BuildId
  attemptId : AttemptId
  jobId : JobId
  projectId : ProjectId
  position : Nat

def LogChunkRow.chunkId (row : LogChunkRow) : LogChunkId := row.manifest.chunkId

inductive JobFailureClass
  | execution
  | infrastructure
  deriving DecidableEq

/-- Concrete provider evidence of one execution. -/
structure ExecutionEvidence where
  provider : String
  target : Placement.ExecutionTarget
  deriving DecidableEq

structure JobCompletionRow where
  jobId : JobId
  completionId : String
  leaseId : LeaseId
  finalSequence : Bigint
  kind : String
  failureClass : Option String
  execution : Option ExecutionEvidence
  readyJobs : List JobId
  skippedJobs : List JobId
  attemptState : AttemptState
  buildState : BuildState

end OctaCity.Store
