/-
  OctaCity.Store.Claim

  Ready-Job selection and Lease creation (`job_claim.rs`).

  The pages of the candidate query are consecutive ranges of one order, so the
  scan is a search through the whole ordered list.  A candidate that another
  transaction holds (`SKIP LOCKED`, or a concurrency scope that was not
  acquired) is `busy` and is passed over.
-/
import OctaCity.Store.State
import Mathlib.Data.Prod.Lex

namespace OctaCity.Store

open Domain Job Lib Orchestrator Pipeline

def JobClaim.validate (request : JobClaim) : Except StoreError Unit :=
  if request.expiresAt ≤ request.claimedAt then
    .error (.invalidInput .claimReadyJob .invalidLeaseWindow)
  else .ok ()

def JobClaim.fingerprint (request : JobClaim) : ClaimFingerprint where
  agentId := request.agentId
  fence := request.fence
  leaseId := request.leaseId
  poolId := request.poolId
  registrationEpoch := request.registrationEpoch
  snapshot := request.snapshot

/-- The grant a claim returns for what it stored. -/
def JobClaim.grant (request : JobClaim) (stored : StoredClaim) : LeaseGrant where
  leaseId := request.leaseId
  fence := request.fence
  jobId := stored.jobId
  attempt := stored.attempt
  agentId := request.agentId
  registrationEpoch := request.registrationEpoch
  poolId := request.poolId
  claimedAt := stored.claimedAt
  expiresAt := stored.expiresAt
  signedJobSpec := stored.signedJobSpec

/-- A queued Job with what the candidate query joins to it. -/
structure Candidate where
  entry : ReadyQueueEntry
  path : StoreState.JobPath
  signedJobSpec : SignedJobSpec

namespace StoreState

variable (s : StoreState)

/-! ## Current Leases -/

def poolLoad (poolId : PoolId) : Nat := s.currentLeases.countP fun lease => lease.poolId = poolId

/-- Current Leases whose Build is of a kind. -/
def buildLoad (p : BuildRow → Bool) : Nat :=
  s.currentLeases.countP fun lease =>
    match s.locate lease.jobId with
    | some path => p path.build
    | none => false

def projectLoad (projectId : ProjectId) : Nat :=
  s.buildLoad fun build => build.projectId = projectId

def configurationLoad (configuration : ConfigurationVersion) : Nat :=
  s.buildLoad fun build =>
    build.configuration.id = configuration.id ∧ build.configuration.version = configuration.version

/-- Whether a current Lease was taken by a registration of the Agent. -/
def ownsLease (agentId : AgentId) : Bool :=
  s.currentLeases.any fun lease => s.ownerOf lease = some agentId

/-! ## Registration and candidates -/

/-- The registration and the Pool version a claim is placed under. -/
def placement (request : JobClaim) (epoch : Bigint) : Option (RegistrationRow × PoolRow) := do
  let agent ← s.agents.find? request.agentId
  let registration ← s.registrations.rows.find? fun row =>
    row.agentId = request.agentId ∧ row.epoch = epoch
  let pool ← s.pools.find? agent.poolId
  if agent.poolId = request.poolId ∧ agent.state = .online ∧ agent.enabled ∧
      ¬ registration.revoked ∧ request.claimedAt < registration.expiresAt ∧
      pool.enabled ∧ pool.drainState = .accepting ∧
      s.poolLoad agent.poolId < pool.concurrencyLimit ∧ ¬ s.ownsLease agent.id then
    some (registration, pool)
  else none

/-- Rechecks mutable Lease counts of the candidate's scopes. -/
def withinConcurrencyLimits (candidate : Candidate) : Bool :=
  s.projectLoad candidate.entry.projectId < candidate.path.build.projectJobConcurrencyLimit ∧
    s.configurationLoad candidate.entry.configuration <
      candidate.entry.configuration.jobConcurrencyLimit

/-- The joined row of one queue entry, when the Job is ready and signed. -/
def candidate (entry : ReadyQueueEntry) : Option Candidate := do
  let path ← s.locate entry.jobId
  let signedJobSpec ← path.job.signedJobSpec
  if path.job.state = .ready then some ⟨entry, path, signedJobSpec⟩ else none

def fairnessRank (policy : FairnessPolicy) (entry : ReadyQueueEntry) : Nat :=
  match policy with
  | .fifo => 0
  | .configurationFair => s.configurationLoad entry.configuration

/-- `ORDER BY queue.priority DESC, fairness_rank, queue.enqueue_order, queue.job_id`. -/
def claimsBefore (policy : FairnessPolicy) (a b : Candidate) : Bool :=
  let key := fun candidate : Candidate =>
    toLex (-candidate.entry.priority, toLex ((s.fairnessRank policy candidate.entry : Int),
      toLex ((candidate.entry.enqueueOrder : Int), candidate.entry.jobId)))
  key a ≤ key b

/-- Every candidate of a Pool within its limits, in claim order. -/
def candidates (poolId : PoolId) (policy : FairnessPolicy) : List Candidate :=
  ((s.readyQueue.rows.filter fun entry => poolId ∈ entry.allowedPools).filterMap s.candidate
    |>.filter s.withinConcurrencyLimits).mergeSort (s.claimsBefore policy)

/-- The first candidate that is permitted, compatible and free. -/
def selectCandidate (rules : CoreRules) (busy : JobId → Bool) (request : JobClaim)
    (registration : RegistrationRow) (pool : PoolRow) : Option Candidate :=
  (s.candidates request.poolId pool.fairnessPolicy).find? fun candidate =>
    rules.permitsRuntime pool.admissionPolicy candidate.path.job.jobSpecTemplate.runtime ∧
      rules.isCompatibleWithContract registration.inventory request.snapshot
        candidate.path.job.requirements candidate.path.job.jobSpecTemplate
        registration.executionContractVersion ∧
      !busy candidate.entry.jobId ∧ s.withinConcurrencyLimits candidate

/-! ## Transaction -/

def newLease (request : JobClaim) (epoch : Bigint) (registration : RegistrationRow) (pool : PoolRow)
    (jobId : JobId) : LeaseRow where
  id := request.leaseId
  jobId := jobId
  poolId := request.poolId
  poolVersion := pool.version
  registrationId := registration.id
  registrationEpoch := epoch
  fence := request.fence
  state := .active
  leasedAt := request.claimedAt
  expiresAt := request.expiresAt

/-- Moves the selected Job from the queue to a new Lease. -/
def takeJob (lease : LeaseRow) : Except StoreError StoreState := do
  let s := s.dequeue [lease.jobId]
  let s ← s.insertLease lease
  .ok (s.updateJobs (fun row => row.id = lease.jobId) .leased)

/-- Claims the first compatible ready Job for a new Lease. -/
def claimReadyJob (rules : CoreRules) (busy : JobId → Bool) (request : JobClaim) :
    Except StoreError (JobClaimOutcome × StoreState) := do
  request.validate
  let epoch ← number request.registrationEpoch .claimReadyJob
  match ← beginMutation s.idempotency.claimReadyJob request.leaseId request.fingerprint .lease with
  | some stored => .ok (.claimed (request.grant stored), s)
  | none =>
    match s.placement request epoch with
    | none => .ok (.empty, s)
    | some (registration, pool) =>
      if !rules.validateSnapshot request.snapshot registration.inventory ∨
          request.snapshot.activeJob.isSome then
        .error (.invalidInput .claimReadyJob .invalidAgentInventory)
      else
        match s.selectCandidate rules busy request registration pool with
        | none => .ok (.empty, s)
        | some candidate =>
          let stored : StoredClaim :=
            { jobId := candidate.entry.jobId
              attempt := candidate.path.attempt.attemptNumber
              signedJobSpec := candidate.signedJobSpec
              claimedAt := request.claimedAt
              expiresAt := request.expiresAt }
          let s ← s.takeJob (newLease request epoch registration pool candidate.entry.jobId)
          .ok (.claimed (request.grant stored),
            { s with
              idempotency.claimReadyJob :=
                commitMutation s.idempotency.claimReadyJob request.leaseId request.fingerprint
                  stored })

end StoreState

end OctaCity.Store
