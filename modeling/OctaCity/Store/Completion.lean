/-
  OctaCity.Store.Completion

  Terminal completion of a Job and the reconciliation of its Attempt
  (`job_completion.rs`, `job_completion/orchestration.rs`, `state.rs`,
  `job_model.rs`).
-/
import OctaCity.Orchestrator.Outcome
import OctaCity.Store.Audit
import OctaCity.Store.Lease

namespace OctaCity.Store

open Domain Job Lib Orchestrator Pipeline

/-! ## Stored texts -/

/-- The text of a Job state column. -/
def jobState : JobState → String
  | .blocked => "blocked"
  | .ready => "ready"
  | .leased => "leased"
  | .running => "running"
  | .cancelling => "cancelling"
  | .succeeded => "succeeded"
  | .failed => "failed"
  | .cancelled => "cancelled"
  | .skipped => "skipped"

/-- The text of an Attempt state column. -/
def attemptState : AttemptState → String
  | .created => "created"
  | .running => "running"
  | .succeeded => "succeeded"
  | .failed => "failed"
  | .cancelled => "cancelled"

/-- The text of a Build state column. -/
def buildState : BuildState → String
  | .queued => "queued"
  | .running => "running"
  | .succeeded => "succeeded"
  | .failed => "failed"
  | .cancelled => "cancelled"

def completionKind : JobCompletionKind → String
  | .succeeded => "succeeded"
  | .failed _ => "failed"
  | .timedOut => "timed_out"
  | .cancelled => "cancelled"

def failureClass : JobCompletionKind → Option String
  | .failed .execution => some "execution"
  | .failed .infrastructure => some "infrastructure"
  | .timedOut => some "execution"
  | .succeeded | .cancelled => none

def JobCompletionKind.failureClass : JobCompletionKind → Option JobFailureClass
  | .failed failure => some failure
  | .timedOut => some .execution
  | .succeeded | .cancelled => none

def parseFailureClass : Option String → Except StoreError (Option JobFailureClass)
  | none => .ok none
  | some text =>
    if text = "execution" then .ok (some .execution)
    else if text = "infrastructure" then .ok (some .infrastructure)
    else .error .unavailable

def JobCompletionKind.event : JobCompletionKind → JobEvent
  | .succeeded => .succeed
  | .failed _ | .timedOut => .fail
  | .cancelled => .cancel

/-- Applies the execution and terminal facts of a completion to the Job. -/
def completeJobState (current : JobState) (kind : JobCompletionKind) :
    Except StoreError JobState := do
  let started ← startJobExecution current
  (started.transition kind.event).mapError fun _ => .conflict .job

def executionContractV2 : Nat := 2

def executionEvidenceIsValid (rules : CoreRules) (kind : JobCompletionKind)
    (runtime : JobRuntimePolicy) (inventory : AgentInventory) (executionContractVersion : Nat)
    (evidence : Option ExecutionEvidence) : Bool :=
  match runtime, evidence with
  | .legacy, none => true
  | .legacy, some _ => false
  | .current _, none => kind ≠ .succeeded
  | .current target, some evidence =>
    executionContractVersion ≥ executionContractV2 ∧ evidence.target = target ∧
      inventory.executions.any fun capability =>
        capability.provider = evidence.provider ∧ rules.satisfies capability evidence.target

/-! ## Reconciliation -/

structure AppliedOrchestration where
  readyJobs : List JobId
  skippedJobs : List JobId
  attemptState : AttemptState
  buildState : BuildState

def JobRow.node (row : JobRow) : Except OrchestrationError JobGraphNode :=
  JobGraphNode.new row.id row.state row.dependencies row.dependencyPolicy

namespace StoreState

variable (s : StoreState)

def cancellationRequested (buildId : BuildId) : Bool := s.buildCancellations.contains buildId

/-- The persisted graph of an Attempt. -/
def attemptGraph (attemptId : AttemptId) : Except OrchestrationError (List JobGraphNode) :=
  (s.attemptJobs attemptId).mapM JobRow.node

def reconcileAttempt (attemptId : AttemptId) (cancellationRequested : Bool) :
    Except StoreError OrchestrationDecision :=
  (do let nodes ← s.attemptGraph attemptId
      if cancellationRequested then reconcileCancelledJobGraph nodes else reconcileJobGraph nodes
    ).mapError fun _ => .unavailable

def transitionsTo (decision : OrchestrationDecision) (state : JobState) : List JobId :=
  (decision.jobTransitions.filter fun selected => selected.state = state).map (·.jobId)

def updateBlockedJobs (ids : List JobId) (state : JobState) : Except StoreError StoreState :=
  if ids.isEmpty then .ok s else s.updateListedJobs ids (fun row => row.state = .blocked) state

def enqueueReady (ready : List JobId) : Except StoreError StoreState :=
  if ready.isEmpty then .ok s else s.enqueue ready

/-- Reconciles the Attempt of a Job that just became terminal. -/
def reconcileAndApply (rules : CoreRules) (attemptId : AttemptId) (buildId : BuildId)
    (transitionedAt : Timestamp) : Except StoreError (AppliedOrchestration × StoreState) := do
  let decision ← s.reconcileAttempt attemptId (s.cancellationRequested buildId)
  let ready := transitionsTo decision .ready
  let skipped := transitionsTo decision .skipped
  let s ← s.updateBlockedJobs ready .ready
  let s ← s.updateBlockedJobs skipped .skipped
  let s ← s.signReadyJobs rules ready transitionedAt
  let s ← s.enqueueReady ready
  let s := (s.setAttemptState attemptId decision.attemptState).setBuildState buildId
    decision.buildState
  .ok (⟨ready, skipped, decision.attemptState, decision.buildState⟩, s)

/-- `SELECT DISTINCT unnest(allowed_pool_ids) … ORDER BY pool_id`. -/
def readyPools (readyJobs : List JobId) : List PoolId :=
  ((s.jobs.rows.filter fun row => row.id ∈ readyJobs).flatMap (·.allowedPools)).dedup.insertionSort
    (· ≤ ·)

end StoreState

/-! ## Completion -/

inductive CompletionOrigin
  | agent
  | assignmentDelivery

namespace JobCompletion

def fingerprint (request : JobCompletion) : CompletionFingerprint where
  lease := request.lease
  finalSequence := request.finalSequence
  failureClass := failureClass request.kind
  execution := request.execution
  kind := completionKind request.kind

/-- The restricted shape of a coordinator-originated failure. -/
def validateAssignmentFailure (request : JobCompletion) : Except StoreError Unit :=
  if request.finalSequence.isSome ∨ request.kind ≠ .failed .infrastructure ∨
      request.execution.isSome then
    .error (.invalidInput .completeJob .invalidExecutionEvidence)
  else .ok ()

/-- The durable cursor a completion declares. -/
def required (request : JobCompletion) : Nat := request.finalSequence.getD 0

/-- The metadata of the audit fact of a completion. -/
def facts (request : JobCompletion) (outcome : CompletionDisposition) : Json :=
  .object [("attempt_state", .string (attemptState outcome.attemptState)),
    ("build_state", .string (buildState outcome.buildState)),
    ("completion_id", .string request.completionId),
    ("execution", optionJson evidenceJson request.execution),
    ("failure_class", optionJson .string (failureClass request.kind)),
    ("final_sequence", optionJson countJson request.finalSequence),
    ("kind", .string (completionKind request.kind)),
    ("lease_id", .string (hyphenated request.lease.leaseId.uuid)),
    ("ready_job_count", countJson outcome.readyJobs.length),
    ("skipped_job_count", countJson outcome.skippedJobs.length)]

end JobCompletion

/-- The metadata of the fact that the Attempt was reconciled. -/
def CompletionDisposition.orchestratorFact (outcome : CompletionDisposition) : Json :=
  .object [("attempt_state", .string (Store.attemptState outcome.attemptState)),
    ("build_state", .string (Store.buildState outcome.buildState)),
    ("job_id", .string (hyphenated outcome.jobId.uuid)),
    ("ready_job_count", countJson outcome.readyJobs.length),
    ("skipped_job_count", countJson outcome.skippedJobs.length)]

/-- `CompletionRow::matches`: a stored completion is the one requested again. -/
def JobCompletionRow.isFor (row : JobCompletionRow) (request : JobCompletion) : Bool :=
  row.completionId = request.completionId ∧ row.leaseId = request.lease.leaseId ∧
    (row.finalSequence : Nat) = request.required ∧ row.kind = completionKind request.kind ∧
    row.failureClass = Store.failureClass request.kind ∧ row.execution = request.execution

namespace StoreState

variable (s : StoreState)

/-- The records of the mutation scope an origin writes to. -/
def completionRecords (origin : CompletionOrigin) :
    IdempotencyRecords String CompletionFingerprint CompletionDisposition :=
  match origin with
  | .agent => s.idempotency.completeJob
  | .assignmentDelivery => s.idempotency.failLeaseAssignment

/-- Stores the idempotency record of a completion. -/
def recordCompletion (origin : CompletionOrigin) (request : JobCompletion)
    (outcome : CompletionDisposition) : StoreState :=
  match origin with
  | .agent =>
    { s with
      idempotency.completeJob :=
        commitMutation s.idempotency.completeJob request.completionId request.fingerprint outcome }
  | .assignmentDelivery =>
    { s with
      idempotency.failLeaseAssignment :=
        commitMutation s.idempotency.failLeaseAssignment request.completionId request.fingerprint
          outcome }

/-- Commits a completion; facts that are no audit metadata roll it back. -/
def commitCompletion (origin : CompletionOrigin) (request : JobCompletion)
    (outcome : CompletionDisposition) : Except StoreError StoreState := do
  let _ ← okOr (AuditMetadata.tryNew outcome.orchestratorFact) .unavailable
  let _ ← okOr (AuditMetadata.tryNew (request.facts outcome)) .unavailable
  .ok (s.recordCompletion origin request outcome)

def requireValidExecutionEvidence (rules : CoreRules) (row : LoadedLease)
    (request : JobCompletion) : Except StoreError Unit :=
  if executionEvidenceIsValid rules request.kind row.path.job.jobSpecTemplate.runtime
      row.registration.inventory row.registration.executionContractVersion request.execution then
    .ok ()
  else .error (.invalidInput .completeJob .invalidExecutionEvidence)

def requireDurableCursor (jobId : JobId) (required : Nat) : Except StoreError Unit :=
  let durableThrough := s.durableThrough jobId
  if required > durableThrough then .error (.eventsMissing jobId durableThrough required)
  else if required < durableThrough then .error (.conflict .job)
  else .ok ()

def persistTerminalState (request : JobCompletion) (jobId : JobId) :
    Except StoreError StoreState := do
  let job ← okOr (s.jobs.find? jobId) .unavailable
  let terminal ← completeJobState job.state request.kind
  if jobState terminal ≠ completionKind request.kind then .error .unavailable
  else
    .ok ((s.closeLease request.lease.leaseId .completed).updateJobs (fun row => row.id = jobId)
      terminal)

/-- The outcome of a completion another origin or an earlier call committed. -/
def replayCompletion (existing : JobCompletionRow) : Except StoreError CompletionDisposition := do
  let failureClass ← parseFailureClass existing.failureClass
  .ok { disposition := .replayed
        jobId := existing.jobId
        failureClass
        readyJobs := existing.readyJobs
        readyPools := s.readyPools existing.readyJobs
        skippedJobs := existing.skippedJobs
        attemptState := existing.attemptState
        buildState := existing.buildState }

/-- Makes the Job terminal, reconciles its Attempt and stores the completion. -/
def applyCompletion (rules : CoreRules) (request : JobCompletion) (row : LoadedLease)
    (finalSequence : Bigint) : Except StoreError (CompletionDisposition × StoreState) := do
  let s ← s.persistTerminalState request row.lease.jobId
  let (applied, s) ←
    s.reconcileAndApply rules row.path.attempt.id row.path.build.id request.completedAt
  let s ← s.insertCompletion
    { jobId := row.lease.jobId
      completionId := request.completionId
      leaseId := request.lease.leaseId
      finalSequence
      kind := completionKind request.kind
      failureClass := failureClass request.kind
      execution := request.execution
      readyJobs := applied.readyJobs
      skippedJobs := applied.skippedJobs
      attemptState := applied.attemptState
      buildState := applied.buildState }
  .ok ({ disposition := .applied
         jobId := row.lease.jobId
         failureClass := request.kind.failureClass
         readyJobs := applied.readyJobs
         readyPools := s.readyPools applied.readyJobs
         skippedJobs := applied.skippedJobs
         attemptState := applied.attemptState
         buildState := applied.buildState }, s)

/-- `leases JOIN jobs JOIN attempts`: the graph the Lease belongs to. -/
def locateGraph (leaseId : LeaseId) : Option (AttemptId × BuildId) := do
  let lease ← s.leases.find? leaseId
  let job ← s.jobs.find? lease.jobId
  let attempt ← s.attempts.find? job.attemptId
  some (attempt.id, attempt.buildId)

/-- The part of a completion after its idempotency record was started. -/
def completeFresh (rules : CoreRules) (now : Timestamp) (request : JobCompletion)
    (origin : CompletionOrigin) : Except StoreError (CompletionDisposition × StoreState) := do
  let _ ← okOr (s.locateGraph request.lease.leaseId) (.fenced request.lease.leaseId)
  let row ← s.loadLease now request.lease .completeJob
  requireValidExecutionEvidence rules row request
  let finalSequence ← number request.required .completeJob
  match s.jobCompletions.find? row.lease.jobId with
  | some existing =>
    if existing.isFor request then
      -- The other path already committed this completion; it is replayed
      -- without a second record.
      let outcome ← s.replayCompletion existing
      .ok (outcome, s)
    else .error (.conflict .job)
  | none =>
    requireCurrent row request.lease request.completedAt
    s.requireDurableCursor row.lease.jobId request.required
    let (outcome, s) ← s.applyCompletion rules request row finalSequence
    let s ← s.commitCompletion origin request outcome
    .ok (outcome, s)

def completeWithOrigin (rules : CoreRules) (now : Timestamp) (request : JobCompletion)
    (origin : CompletionOrigin) : Except StoreError (CompletionDisposition × StoreState) := do
  match ← beginMutation (s.completionRecords origin) request.completionId request.fingerprint
      .job with
  | some outcome => .ok ({ outcome with disposition := .replayed }, s)
  | none => s.completeFresh rules now request origin

/-- Commits the completion an Agent reports. -/
def completeJob (rules : CoreRules) (now : Timestamp) (request : JobCompletion) :
    Except StoreError (CompletionDisposition × StoreState) :=
  s.completeWithOrigin rules now request .agent

/-- Fails an assignment that could not be delivered. -/
def failAssignment (rules : CoreRules) (now : Timestamp) (request : JobCompletion) :
    Except StoreError (CompletionDisposition × StoreState) := do
  request.validateAssignmentFailure
  s.completeWithOrigin rules now request .assignmentDelivery

end StoreState

/-! # Expiry

The two steps of the Lease-expiry worker: claiming expired Leases and, in a
later transaction, recovering one of them (`lease_recovery.rs`).
-/

def ClaimExpiredLeases.claim (request : ClaimExpiredLeases)
    (leaseId : LeaseId) : WorkerClaimRow where
  leaseId := leaseId
  owner := request.owner
  claimedAt := request.observedAt
  expiresAt := request.claimExpiresAt
  completedAt := none

def JobRow.requeued (requeues : Nat) (row : JobRow) : JobRow :=
  { row with state := .ready, infrastructureRequeues := requeues }

theorem JobRow.requeued_id (requeues : Nat) (row : JobRow) : (row.requeued requeues).id = row.id :=
  rfl

/-- Closes a worker claim when its recovery committed. -/
def WorkerClaimRow.completed (completedAt : Timestamp) (row : WorkerClaimRow) :
    WorkerClaimRow :=
  { row with completedAt := some completedAt, expiresAt := completedAt }

theorem WorkerClaimRow.completed_leaseId (completedAt : Timestamp) (row : WorkerClaimRow) :
    (row.completed completedAt).leaseId = row.leaseId := rfl

def RecoverExpiredLease.fingerprint (request : RecoverExpiredLease) :
    RecoveryFingerprint :=
  ⟨request.claim.leaseId, request.claim.jobId⟩

namespace StoreState

variable (s : StoreState)

def hasLiveClaim (observedAt : Timestamp) (leaseId : LeaseId) : Bool :=
  match s.workerClaims.find? leaseId with
  | none => false
  | some claim => observedAt < claim.expiresAt

/-- A current Lease past its deadline without a live worker claim. -/
def isExpiryCandidate (observedAt : Timestamp) (lease : LeaseRow) : Bool :=
  lease.state.isCurrent ∧ lease.expiresAt ≤ observedAt ∧ !s.hasLiveClaim observedAt lease.id

/-- The Leases one pass claims; `busy` ones are locked by another transaction. -/
def expiryCandidates (busy : LeaseId → Bool) (request : ClaimExpiredLeases) : List LeaseRow :=
  ((s.leases.rows.filter fun lease =>
      s.isExpiryCandidate request.observedAt lease ∧ !busy lease.id).mergeSort
    fun a b => toLex (a.expiresAt, a.id) ≤ toLex (b.expiresAt, b.id)).take request.limit

/-- Claims expired Leases for one worker. -/
def claimExpiredLeases (busy : LeaseId → Bool) (request : ClaimExpiredLeases) :
    List ExpiredLeaseClaim × StoreState :=
  let candidates := s.expiryCandidates busy request
  ((candidates.mergeSort fun a b => a.id ≤ b.id).map fun lease =>
      ⟨lease.id, lease.jobId, request.owner, request.claimExpiresAt⟩,
    { s with
      workerClaims := candidates.foldl (fun claims lease => claims.put (request.claim lease.id))
                        s.workerClaims })

/-! ## Recovery -/

/-- What recovery joins to the Lease. -/
structure RecoveryRow where
  lease : LeaseRow
  path : JobPath
  cancelled : Bool

def joinRecovery (leaseId : LeaseId) : Option RecoveryRow := do
  let lease ← s.leases.find? leaseId
  let path ← s.locate lease.jobId
  some ⟨lease, path, s.cancellationRequested path.build.id⟩

/-- `u16_requeues`. -/
def u16Requeues (value : Nat) : Except StoreError Nat :=
  if value < 2 ^ 16 then .ok value else .error .unavailable

/-- Whether infrastructure retries put the Job back into the queue. -/
def requeues (row : RecoveryRow) : Bool :=
  (row.path.job.state = .leased ∨ row.path.job.state = .running) ∧ !row.cancelled ∧
    row.path.build.configuration.retriesInfrastructure ∧
    row.path.job.infrastructureRequeues < row.path.build.configuration.retryMaxAttempts - 1

/-- Returns the Job of a lost Lease to the ready queue. -/
def requeueJob (row : RecoveryRow) : Except StoreError (LeaseRecoveryAction × Nat × StoreState) := do
  let s := s.closeLease row.lease.id .expired
  let requeues := row.path.job.infrastructureRequeues + 1
  let s := { s with
    jobs := s.jobs.updateWhere (fun job => job.id = row.lease.jobId) (JobRow.requeued requeues)
              (JobRow.requeued_id requeues) }
  let s ← (s.enqueue [row.lease.jobId]).mapError fun _ => .unavailable
  let requeues ← u16Requeues requeues
  .ok (.requeued, requeues, s)

/-- `ON CONFLICT (job_id) DO NOTHING`: an existing completion of the Job stays. -/
def insertRecoveredCompletion (row : JobCompletionRow) : Except StoreError StoreState :=
  if s.jobCompletions.contains row.jobId then .ok s
  else (s.insertCompletion row).mapError fun _ => .unavailable

/-- Ends the Job of a lost Lease. -/
def failJob (rules : CoreRules) (row : RecoveryRow) (recoveredAt : Timestamp) :
    Except StoreError (LeaseRecoveryAction × Nat × StoreState) := do
  let s := s.closeLease row.lease.id .expired
  let terminal : JobState := if row.cancelled then .cancelled else .failed
  let s ← s.updateListedJobs [row.lease.jobId]
    (fun job => job.state = .leased ∨ job.state = .running ∨ job.state = .cancelling) terminal
  let (applied, s) ← s.reconcileAndApply rules row.path.attempt.id row.path.build.id recoveredAt
  let finalSequence ← okOr (number (s.durableThrough row.lease.jobId) .completeJob).toOption
    .unavailable
  let s ← s.insertRecoveredCompletion
    { jobId := row.lease.jobId
      completionId := "lease-expiry:" ++ toString row.lease.id.uuid
      leaseId := row.lease.id
      finalSequence
      kind := if row.cancelled then "cancelled" else "failed"
      failureClass := if row.cancelled then none else some "infrastructure"
      execution := none
      readyJobs := applied.readyJobs
      skippedJobs := applied.skippedJobs
      attemptState := applied.attemptState
      buildState := applied.buildState }
  let requeues ← u16Requeues row.path.job.infrastructureRequeues
  .ok (if row.cancelled then .cancelled else .failed, requeues, s)

/-- Ends a current Lease and requeues, fails or cancels its Job. -/
def settleLease (rules : CoreRules) (row : RecoveryRow) (recoveredAt : Timestamp) :
    Except StoreError (LeaseRecoveryAction × Nat × StoreState) :=
  if !row.lease.state.isCurrent then do
    let requeues ← u16Requeues row.path.job.infrastructureRequeues
    .ok (.alreadyRecovered, requeues, s)
  else if requeues row then s.requeueJob row
  else s.failJob rules row recoveredAt

/-- The worker claim a recovery is applied under. -/
def ownsClaim (request : RecoverExpiredLease) : Bool :=
  match s.workerClaims.find? request.claim.leaseId with
  | none => false
  | some claim => claim.owner = request.claim.owner ∧ request.recoveredAt < claim.expiresAt

/-- The part of a recovery after its idempotency record was started. -/
def recoverFresh (rules : CoreRules) (request : RecoverExpiredLease) :
    Except StoreError (RecoverExpiredLeaseOutcome × StoreState) := do
  if !s.ownsClaim request ∨ request.claim.claimExpiresAt ≤ request.recoveredAt then
    .error (.conflict .lease)
  else
    let row ← okOr (s.joinRecovery request.claim.leaseId) (.notFound .lease)
    if row.lease.jobId ≠ request.claim.jobId then .error (.conflict .lease)
    else
      let (action, requeues, s) ← s.settleLease rules row request.recoveredAt
      let s := { s with
        workerClaims := s.workerClaims.updateWhere
          (fun claim => claim.leaseId = request.claim.leaseId ∧ claim.owner = request.claim.owner)
          (WorkerClaimRow.completed request.recoveredAt)
          (WorkerClaimRow.completed_leaseId request.recoveredAt) }
      .ok ({ disposition := if action = .alreadyRecovered then .replayed else .applied
             leaseId := request.claim.leaseId
             jobId := request.claim.jobId
             action
             infrastructureRequeues := requeues }, s)

/-- Recovers one claimed Lease. -/
def recoverExpiredLease (rules : CoreRules) (request : RecoverExpiredLease) :
    Except StoreError (RecoverExpiredLeaseOutcome × StoreState) := do
  match ← beginMutation s.idempotency.recoverExpiredLease request.claim.leaseId request.fingerprint
      .lease with
  | some outcome => .ok (outcome, s)
  | none =>
    let (outcome, s) ← s.recoverFresh rules request
    .ok (outcome,
      { s with
        idempotency.recoverExpiredLease :=
          commitMutation s.idempotency.recoverExpiredLease request.claim.leaseId
            request.fingerprint outcome })

end StoreState

end OctaCity.Store
