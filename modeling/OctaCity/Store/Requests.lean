/-
  OctaCity.Store.Requests

  Inputs and results of the Build transactions, and what the digest of each
  mutation covers (octacity-server-store, `cicd/builds`).
-/
import OctaCity.Store.Rows

namespace OctaCity.Store

open Domain Job Lib Orchestrator Pipeline

/-- Whether an idempotent mutation was newly applied or exactly replayed. -/
inductive MutationDisposition
  | applied
  | replayed

/-- Caller key of a management mutation within its security scope. -/
structure ManagementKey where
  securityScope : String
  key : String
  deriving DecidableEq

/-! ## Materialization and retry -/

structure MaterializedJob where
  id : JobId
  pipelineNodeId : String
  dependencies : List JobId
  dependencyPolicy : DependencyPolicy
  allowedPools : List PoolId
  requirements : String
  jobSpecTemplate : JobSpecTemplate
  deriving DecidableEq

structure ImmutableBuildInput where
  id : BuildId
  projectId : ProjectId
  configuration : ConfigurationVersion
  projectJobConcurrencyLimit : Nat
  priority : Int

/-- The part of `AcceptTrigger` and `AcceptFactoryBuild` that creates the
    first Attempt of a Build. -/
structure MaterializeBuild where
  build : ImmutableBuildInput
  factoryOrigin : Option String
  attemptId : AttemptId
  jobs : List MaterializedJob
  acceptedAt : Timestamp

structure RetryBuild where
  buildId : BuildId
  attemptId : AttemptId
  attemptNumber : Nat
  jobs : List MaterializedJob
  idempotencyKey : ManagementKey
  requestedAt : Timestamp

structure RetryFingerprint where
  buildId : BuildId
  attemptId : AttemptId
  attemptNumber : Nat
  jobs : List MaterializedJob
  deriving DecidableEq

structure RetryDisposition where
  disposition : MutationDisposition
  buildId : BuildId
  sourceAttemptId : AttemptId
  attemptId : AttemptId
  attemptNumber : Nat
  readyJobs : List JobId

/-! ## Claims -/

/-- Current Agent capacity; `activeJob` is the Job the host still runs. -/
structure HostSnapshot where
  activeJob : Option String
  document : String
  deriving DecidableEq

/-- Complete atomic input for ready-Job selection and Lease creation. -/
structure JobClaim where
  leaseId : LeaseId
  fence : LeaseFence
  agentId : AgentId
  registrationEpoch : Nat
  poolId : PoolId
  snapshot : HostSnapshot
  claimedAt : Timestamp
  expiresAt : Timestamp

structure ClaimFingerprint where
  agentId : AgentId
  fence : LeaseFence
  leaseId : LeaseId
  poolId : PoolId
  registrationEpoch : Nat
  snapshot : HostSnapshot
  deriving DecidableEq

/-- What a committed claim stores for its replays. -/
structure StoredClaim where
  jobId : JobId
  attempt : Bigint
  signedJobSpec : SignedJobSpec
  claimedAt : Timestamp
  expiresAt : Timestamp

structure LeaseGrant where
  leaseId : LeaseId
  fence : LeaseFence
  jobId : JobId
  attempt : Bigint
  agentId : AgentId
  registrationEpoch : Nat
  poolId : PoolId
  claimedAt : Timestamp
  expiresAt : Timestamp
  signedJobSpec : SignedJobSpec

inductive JobClaimOutcome
  | empty
  | claimed (grant : LeaseGrant)

/-! ## Fenced Lease operations -/

/-- Current Lease ownership supplied to fenced mutations. -/
structure LeaseAccess where
  leaseId : LeaseId
  fence : LeaseFence
  agentId : AgentId
  registrationEpoch : Nat
  deriving DecidableEq

structure RenewLease where
  idempotencyKey : String
  lease : LeaseAccess
  jobId : JobId
  attempt : Nat
  observedAt : Timestamp
  expiresAt : Timestamp

/-- The digest of a heartbeat leaves its times out. -/
structure RenewFingerprint where
  attempt : Nat
  jobId : JobId
  lease : LeaseAccess
  deriving DecidableEq

inductive LeaseHeartbeatOutcome
  | «continue» (expiresAt : Timestamp)
  | cancel
  | fenced
  | drain (expiresAt : Timestamp)
  deriving DecidableEq

structure AppendJobEvents where
  lease : LeaseAccess
  events : List DurableJobEvent
  logChunks : List LogChunkManifest
  acceptedAt : Timestamp

structure AppendFingerprint where
  lease : LeaseAccess
  events : List DurableJobEvent
  logChunks : List LogChunkManifest
  deriving DecidableEq

structure AppendJobEventsOutcome where
  acknowledgedThrough : Nat
  inserted : Nat

/-- Stable terminal classification stored for one completed Job. -/
inductive JobCompletionKind
  | succeeded
  | failed (failure : JobFailureClass)
  | timedOut
  | cancelled
  deriving DecidableEq

structure JobCompletion where
  completionId : String
  lease : LeaseAccess
  finalSequence : Option Nat
  kind : JobCompletionKind
  execution : Option ExecutionEvidence
  completedAt : Timestamp

/-- The digest of a completion leaves its time out. -/
structure CompletionFingerprint where
  lease : LeaseAccess
  finalSequence : Option Nat
  failureClass : Option String
  execution : Option ExecutionEvidence
  kind : String
  deriving DecidableEq

structure CompletionDisposition where
  disposition : MutationDisposition
  jobId : JobId
  failureClass : Option JobFailureClass
  readyJobs : List JobId
  readyPools : List PoolId
  skippedJobs : List JobId
  attemptState : AttemptState
  buildState : BuildState

/-! ## Cancellation, drains and expiry -/

/-- Who asks for a cancellation: a management caller or the owning Factory Run. -/
inductive CancellationAuthority
  | management (key : ManagementKey)
  | factory (operationId buildOperationId : String)

structure CancelBuild where
  buildId : BuildId
  authority : CancellationAuthority
  requestedAt : Timestamp

/-- The digest of a Factory cancellation also covers its origin and its time. -/
inductive CancelFingerprint
  | management (buildId : BuildId)
  | factory (buildId : BuildId) (creation : String) (requestedAt : Timestamp)
  deriving DecidableEq

structure CancellationDisposition where
  disposition : MutationDisposition
  buildId : BuildId
  attemptId : AttemptId
  cancelledJobs : List JobId
  cancellingJobs : List JobId
  attemptState : AttemptState
  buildState : BuildState

inductive AgentDrainMode
  | graceful
  | forced
  deriving DecidableEq

structure DrainAgent where
  agentId : AgentId
  expectedVersion : Nat
  mode : AgentDrainMode
  idempotencyKey : ManagementKey
  requestedAt : Timestamp

structure DrainFingerprint where
  agentId : AgentId
  expectedVersion : Nat
  mode : AgentDrainMode
  deriving DecidableEq

structure AgentPoolDefinition where
  enabled : Bool
  drainState : PoolDrainState
  admissionPolicy : String
  concurrencyLimit : Nat
  fairnessPolicy : FairnessPolicy
  deriving DecidableEq

structure PublishAgentPoolVersion where
  id : PoolId
  expectedCurrentVersion : Nat
  definition : AgentPoolDefinition
  idempotencyKey : ManagementKey
  publishedAt : Timestamp

structure PublishFingerprint where
  id : PoolId
  expectedCurrentVersion : Nat
  definition : AgentPoolDefinition
  deriving DecidableEq

structure ClaimExpiredLeases where
  owner : String
  observedAt : Timestamp
  claimExpiresAt : Timestamp
  limit : Nat

structure ExpiredLeaseClaim where
  leaseId : LeaseId
  jobId : JobId
  owner : String
  claimExpiresAt : Timestamp

structure RecoverExpiredLease where
  claim : ExpiredLeaseClaim
  recoveredAt : Timestamp

structure RecoveryFingerprint where
  leaseId : LeaseId
  jobId : JobId
  deriving DecidableEq

inductive LeaseRecoveryAction
  | requeued
  | failed
  | cancelled
  | alreadyRecovered
  deriving DecidableEq

structure RecoverExpiredLeaseOutcome where
  disposition : MutationDisposition
  leaseId : LeaseId
  jobId : JobId
  action : LeaseRecoveryAction
  infrastructureRequeues : Nat

/-! # Mutations

Idempotency of one mutation scope (octacity-server-store-postgres,
`mutation.rs`).  A transaction inserts its record before it does anything
else and completes it when it commits, so other transactions see the record
only with its outcome.
-/

/-- A committed mutation: its key, what its digest covers and its outcome. -/
structure IdempotencyRecord (Key Request Outcome : Type) where
  key : Key
  request : Request
  outcome : Outcome

abbrev IdempotencyRecords (Key Request Outcome : Type) :=
  List (IdempotencyRecord Key Request Outcome)

variable {Key Request Outcome : Type} [DecidableEq Key] [DecidableEq Request]

/-- `begin`: `none` starts a fresh transaction, an outcome is replayed. -/
def beginMutation (records : IdempotencyRecords Key Request Outcome) (key : Key)
    (request : Request) (conflictEntity : StoreEntity) : Except StoreError (Option Outcome) :=
  match records.find? fun record => record.key = key with
  | none => .ok none
  | some record =>
    if record.request = request then .ok (some record.outcome)
    else .error (.conflict conflictEntity)

/-- `commit`: the record keeps the outcome. -/
def commitMutation (records : IdempotencyRecords Key Request Outcome) (key : Key)
    (request : Request) (outcome : Outcome) : IdempotencyRecords Key Request Outcome :=
  records ++ [⟨key, request, outcome⟩]

variable {records later : IdempotencyRecords Key Request Outcome} {key : Key} {request : Request}
  {outcome : Outcome} {entity : StoreEntity}

theorem beginMutation_eq_none :
    beginMutation records key request entity = .ok none ↔ ∀ record ∈ records, record.key ≠ key := by
  unfold beginMutation
  cases hfind : records.find? fun record => record.key = key with
  | none => simpa using hfind
  | some record =>
    have hmem := List.mem_of_find?_eq_some hfind
    have hkey : record.key = key := by simpa using List.find?_some hfind
    simp only
    constructor
    · intro h
      split at h <;> cases h
    · intro h
      exact absurd hkey (h record hmem)

/-- A replayed outcome is the one stored for the identical request. -/
theorem beginMutation_eq_some (h : beginMutation records key request entity = .ok (some outcome)) :
    ⟨key, request, outcome⟩ ∈ records := by
  unfold beginMutation at h
  cases hfind : records.find? fun record => record.key = key with
  | none => simp [hfind] at h
  | some record =>
    have hkey : record.key = key := by simpa using List.find?_some hfind
    simp only [hfind] at h
    split at h
    · rename_i hreq
      cases h
      subst hkey hreq
      exact List.mem_of_find?_eq_some hfind
    · cases h

/-- Only a changed request under a used key is refused. -/
theorem beginMutation_eq_error {error : StoreError}
    (h : beginMutation records key request entity = .error error) : error = .conflict entity := by
  unfold beginMutation at h
  split at h
  · cases h
  · split at h
    · cases h
    · cases h
      rfl

/-- Later records do not change what is replayed. -/
theorem beginMutation_append (h : beginMutation records key request entity = .ok (some outcome)) :
    beginMutation (records ++ later) key request entity = .ok (some outcome) := by
  unfold beginMutation at h ⊢
  cases hfind : records.find? fun record => record.key = key with
  | none => simp [hfind] at h
  | some record =>
    rw [List.find?_append, hfind]
    simpa [hfind] using h

theorem beginMutation_commit (h : beginMutation records key request entity = .ok none) :
    beginMutation (commitMutation records key request outcome) key request entity =
      .ok (some outcome) := by
  have hfresh := beginMutation_eq_none.mp h
  have hnone : records.find? (fun record => record.key = key) = none :=
    List.find?_eq_none.mpr fun record hmem => by simpa using hfresh record hmem
  unfold beginMutation commitMutation
  rw [List.find?_append, hnone]
  simp

end OctaCity.Store
