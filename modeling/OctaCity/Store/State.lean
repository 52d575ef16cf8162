/-
  OctaCity.Store.State

  The tables of the Build store and the statements its transactions execute.

  A statement is a function on the whole state, named after the rows it
  writes.  Constraints of the schema are checked where the statement that can
  violate them is executed: primary keys, one current Lease per Job, and the
  uniqueness and shape of a Job completion.  The ownership triggers of the
  first migrations were dropped by a later one and are not part of the schema.
-/
import OctaCity.Store.Requests

namespace OctaCity.Store

open Domain Job Lib Orchestrator Pipeline

/-! ## Decisions of other crates -/

/-- Pure decisions the transactions consult: request validation and size,
    scheduling compatibility, provider routes and the JobSpec signer. -/
structure CoreRules where
  validateTemplate : JobSpecTemplate → Bool
  validateRequirements : String → Bool
  encodedJobBytes : MaterializedJob → Nat
  encodedEventBytes : DurableJobEvent → Nat
  validateSnapshot : HostSnapshot → AgentInventory → Bool
  permitsRuntime : String → JobRuntimePolicy → Bool
  isCompatibleWithContract : AgentInventory → HostSnapshot → String → JobSpecTemplate → Nat → Bool
  satisfies : ExecutionCapability → Placement.ExecutionTarget → Bool
  validateDefinition : AgentPoolDefinition → Bool
  cancellationOperation : String → String
  signReadyJobSpec : JobSpecTemplate → Nat → JobId → Timestamp → Option SignedJobSpec

/-! ## Tables -/

/-- Idempotency records, one list for each mutation scope. -/
structure Idempotency where
  claimReadyJob : IdempotencyRecords LeaseId ClaimFingerprint StoredClaim
  renewLease : IdempotencyRecords String RenewFingerprint LeaseHeartbeatOutcome
  appendJobEvents :
    IdempotencyRecords (LeaseId × Nat × Nat) AppendFingerprint AppendJobEventsOutcome
  completeJob : IdempotencyRecords String CompletionFingerprint CompletionDisposition
  failLeaseAssignment : IdempotencyRecords String CompletionFingerprint CompletionDisposition
  cancelBuild :
    IdempotencyRecords (ManagementKey ⊕ String) CancelFingerprint CancellationDisposition
  retryBuild : IdempotencyRecords ManagementKey RetryFingerprint RetryDisposition
  drainAgent : IdempotencyRecords ManagementKey DrainFingerprint Unit
  publishAgentPoolVersion : IdempotencyRecords ManagementKey PublishFingerprint Nat
  recoverExpiredLease :
    IdempotencyRecords LeaseId RecoveryFingerprint RecoverExpiredLeaseOutcome

structure StoreState where
  agents : Table AgentRow.id
  registrations : Table RegistrationRow.id
  pools : Table PoolRow.id
  builds : Table BuildRow.id
  attempts : Table AttemptRow.id
  jobs : Table JobRow.id
  readyQueue : Table ReadyQueueEntry.jobId
  /-- Next value of `ready_queue_enqueue_order_seq`. -/
  enqueueOrder : Nat
  leases : Table LeaseRow.id
  workerClaims : Table WorkerClaimRow.leaseId
  jobEvents : List JobEventRow
  logChunks : Table LogChunkRow.chunkId
  /-- `log_index_project_positions`; a Project without a row is at zero. -/
  committedThrough : ProjectId → Nat
  jobCompletions : Table JobCompletionRow.jobId
  buildCancellations : Table BuildCancellationRow.buildId
  idempotency : Idempotency

def Idempotency.empty : Idempotency := ⟨[], [], [], [], [], [], [], [], [], []⟩

/-- The store before its first transaction. -/
def StoreState.initial : StoreState where
  agents := .empty
  registrations := .empty
  pools := .empty
  builds := .empty
  attempts := .empty
  jobs := .empty
  readyQueue := .empty
  enqueueOrder := 1
  leases := .empty
  workerClaims := .empty
  jobEvents := []
  logChunks := .empty
  committedThrough := fun _ => 0
  jobCompletions := .empty
  buildCancellations := .empty
  idempotency := .empty

/-! ## Row changes -/

def JobRow.withState (state : JobState) (row : JobRow) : JobRow := { row with state }

theorem JobRow.withState_id (state : JobState) (row : JobRow) : (row.withState state).id = row.id :=
  rfl

def AttemptRow.withState (state : AttemptState) (row : AttemptRow) : AttemptRow :=
  { row with state }

theorem AttemptRow.withState_id (state : AttemptState) (row : AttemptRow) :
    (row.withState state).id = row.id := rfl

def BuildRow.withState (state : BuildState) (row : BuildRow) : BuildRow := { row with state }

theorem BuildRow.withState_id (state : BuildState) (row : BuildRow) :
    (row.withState state).id = row.id := rfl

def LeaseRow.withState (state : LeaseState) (row : LeaseRow) : LeaseRow := { row with state }

theorem LeaseRow.withState_id (state : LeaseState) (row : LeaseRow) :
    (row.withState state).id = row.id := rfl

def LeaseRow.withDeadline (expiresAt : Timestamp) (row : LeaseRow) : LeaseRow :=
  { row with expiresAt }

theorem LeaseRow.withDeadline_id (expiresAt : Timestamp) (row : LeaseRow) :
    (row.withDeadline expiresAt).id = row.id := rfl

/-- Whether a directive may move the Lease: `state IN ('active', 'drain_requested')`. -/
def LeaseState.takesDirective : LeaseState → Bool
  | .active | .drainRequested => true
  | .cancellationRequested | .completed | .expired => false

/-- `job_completions_kind` and `job_completions_failure_class`. -/
def JobCompletionRow.wellFormed (row : JobCompletionRow) : Bool :=
  (row.kind = "succeeded" ∨ row.kind = "failed" ∨ row.kind = "cancelled") ∧
    (if row.kind = "failed" then
      row.failureClass = some "execution" ∨ row.failureClass = some "infrastructure"
     else row.failureClass = none)

namespace StoreState

variable (s : StoreState)

/-! ## Joins -/

/-- A Job with the Attempt and the Build it belongs to. -/
structure JobPath where
  job : JobRow
  attempt : AttemptRow
  build : BuildRow

/-- `jobs JOIN attempts JOIN builds` at one Job. -/
def locate (jobId : JobId) : Option JobPath := do
  let job ← s.jobs.find? jobId
  let attempt ← s.attempts.find? job.attemptId
  let build ← s.builds.find? attempt.buildId
  some ⟨job, attempt, build⟩

/-- The Agent that registered the owner of a Lease. -/
def ownerOf (lease : LeaseRow) : Option AgentId :=
  (s.registrations.find? lease.registrationId).map (·.agentId)

def attemptJobs (attemptId : AttemptId) : List JobRow :=
  s.jobs.rows.filter fun job => job.attemptId = attemptId

/-- Greatest durable event sequence of a Job, or zero. -/
def durableThrough (jobId : JobId) : Nat :=
  ((s.jobEvents.filter fun row => row.jobId = jobId).map (·.event.sequence)).foldl max 0

def currentLeases : List LeaseRow := s.leases.rows.filter fun lease => lease.state.isCurrent

/-! ## Jobs -/

/-- `UPDATE jobs SET state = … WHERE …`. -/
def updateJobs (p : JobRow → Bool) (state : JobState) : StoreState :=
  { s with jobs := s.jobs.updateWhere p (JobRow.withState state) (JobRow.withState_id state) }

/-- An update of listed Jobs that has to reach every one of them. -/
def updateListedJobs (ids : List JobId) (p : JobRow → Bool) (state : JobState) :
    Except StoreError StoreState :=
  if s.jobs.rows.countP (fun row => row.id ∈ ids ∧ p row) = ids.length then
    .ok (s.updateJobs (fun row => row.id ∈ ids ∧ p row) state)
  else .error .unavailable

/-- The signed intent of one Job under its Attempt number. -/
def signature (rules : CoreRules) (issuedAt : Timestamp) (row : JobRow) : Option SignedJobSpec := do
  let attempt ← s.attempts.find? row.attemptId
  rules.signReadyJobSpec row.jobSpecTemplate attempt.attemptNumber row.id issuedAt

def signRow (rules : CoreRules) (issuedAt : Timestamp) (row : JobRow) : JobRow :=
  { row with signedJobSpec := s.signature rules issuedAt row }

theorem signRow_id (rules : CoreRules) (issuedAt : Timestamp) (row : JobRow) :
    (s.signRow rules issuedAt row).id = row.id := rfl

/-- Signs ready Jobs inside the transaction that makes them queue-visible. -/
def signReadyJobs (rules : CoreRules) (ids : List JobId) (issuedAt : Timestamp) :
    Except StoreError StoreState :=
  if ids.isEmpty then .ok s
  else if s.jobs.rows.countP (fun row => row.id ∈ ids) ≠ ids.length then .error .unavailable
  else if s.jobs.rows.any fun row => row.id ∈ ids ∧ (s.signature rules issuedAt row).isNone then
    .error .unavailable
  else
    .ok { s with jobs := s.jobs.updateWhere (fun row => row.id ∈ ids) (s.signRow rules issuedAt)
                          (s.signRow_id rules issuedAt) }

/-! ## Ready queue -/

def JobPath.entry (path : JobPath) (enqueueOrder : Nat) : ReadyQueueEntry where
  jobId := path.job.id
  priority := path.build.priority
  enqueueOrder := enqueueOrder
  projectId := path.build.projectId
  configuration := path.build.configuration
  allowedPools := path.job.allowedPools

/-- The rows `INSERT INTO ready_queue_entries SELECT … ORDER BY job.id` adds. -/
def queueEntries (ids : List JobId) : List ReadyQueueEntry :=
  ((s.jobs.rows.filter fun row => row.id ∈ ids).filterMap fun row => s.locate row.id).mapIdx
    fun position path => path.entry (s.enqueueOrder + position)

/-- Adds the listed Jobs to the ready queue; every one has to arrive there. -/
def enqueue (ids : List JobId) : Except StoreError StoreState := do
  let entries := s.queueEntries ids
  let readyQueue ← s.readyQueue.insertAll (fun _ => StoreError.duplicate .job) entries
  if entries.length ≠ ids.length then .error .unavailable
  else .ok { s with readyQueue, enqueueOrder := s.enqueueOrder + entries.length }

/-- `DELETE FROM ready_queue_entries WHERE job_id = ANY(…)`. -/
def dequeue (ids : List JobId) : StoreState :=
  { s with readyQueue := s.readyQueue.deleteWhere fun entry => entry.jobId ∈ ids }

/-! ## Leases -/

/-- Adds a Lease; its identity is new and its Job has no current Lease. -/
def insertLease (lease : LeaseRow) : Except StoreError StoreState :=
  if s.leases.rows.any fun row => row.jobId = lease.jobId ∧ row.state.isCurrent then
    .error (.duplicate .lease)
  else
    match s.leases.insert? lease with
    | some leases => .ok { s with leases }
    | none => .error (.duplicate .lease)

/-- `UPDATE leases SET state = … WHERE …`. -/
def updateLeases (p : LeaseRow → Bool) (state : LeaseState) : StoreState :=
  { s with leases := s.leases.updateWhere p (LeaseRow.withState state) (LeaseRow.withState_id state) }

/-- Ends one Lease. -/
def closeLease (leaseId : LeaseId) (state : LeaseState) : StoreState :=
  s.updateLeases (fun row => row.id = leaseId) state

/-- Directs the running Leases of a kind. -/
def redirectLeases (p : LeaseRow → Bool) (state : LeaseState) : StoreState :=
  s.updateLeases (fun row => p row ∧ row.state.takesDirective) state

/-- Moves the deadline of one Lease, which stays after its issue. -/
def renewDeadline (leaseId : LeaseId) (expiresAt : Timestamp) : Except StoreError StoreState :=
  if s.leases.rows.any fun row => row.id = leaseId ∧ expiresAt ≤ row.leasedAt then
    .error (.conflict .lease)
  else if s.leases.rows.countP (fun row => row.id = leaseId) ≠ 1 then .error .unavailable
  else
    .ok { s with leases := s.leases.updateWhere (fun row => row.id = leaseId)
                            (LeaseRow.withDeadline expiresAt) (LeaseRow.withDeadline_id expiresAt) }

/-! ## Attempts and Builds -/

def setAttemptState (attemptId : AttemptId) (state : AttemptState) : StoreState :=
  { s with attempts := s.attempts.updateWhere (fun row => row.id = attemptId)
                        (AttemptRow.withState state) (AttemptRow.withState_id state) }

def setBuildState (buildId : BuildId) (state : BuildState) : StoreState :=
  { s with builds := s.builds.updateWhere (fun row => row.id = buildId)
                      (BuildRow.withState state) (BuildRow.withState_id state) }

/-! ## Completions -/

/-- Adds the completion of a Job under the constraints of its table. -/
def insertCompletion (row : JobCompletionRow) : Except StoreError StoreState :=
  if !row.wellFormed then .error (.conflict .job)
  else if s.jobCompletions.rows.any fun other =>
      other.completionId = row.completionId ∨ other.leaseId = row.leaseId then
    .error (.duplicate .job)
  else
    match s.jobCompletions.insert? row with
    | some jobCompletions => .ok { s with jobCompletions }
    | none => .error (.duplicate .job)

end StoreState

end OctaCity.Store
