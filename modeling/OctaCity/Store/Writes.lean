/-
  OctaCity.Store.Writes

  What a transaction of the Build store can write.  `Write` has one constructor
  for each group of statements that belongs together, with what its transaction
  checked before.
-/
import OctaCity.Store.Transaction

namespace OctaCity.Store

open Domain Job Lib List Orchestrator Pipeline

/-- The states in which a Job is owned by a Lease. -/
def isHeld : JobState → Bool
  | .leased | .running | .cancelling => true
  | _ => false

/-- Later records keep the earlier ones. -/
structure Idempotency.Grows (records later : Idempotency) : Prop where
  claimReadyJob : records.claimReadyJob <+: later.claimReadyJob
  renewLease : records.renewLease <+: later.renewLease
  appendJobEvents : records.appendJobEvents <+: later.appendJobEvents
  completeJob : records.completeJob <+: later.completeJob
  failLeaseAssignment : records.failLeaseAssignment <+: later.failLeaseAssignment
  cancelBuild : records.cancelBuild <+: later.cancelBuild
  retryBuild : records.retryBuild <+: later.retryBuild
  drainAgent : records.drainAgent <+: later.drainAgent
  publishAgentPoolVersion :
    records.publishAgentPoolVersion <+: later.publishAgentPoolVersion
  recoverExpiredLease : records.recoverExpiredLease <+: later.recoverExpiredLease

theorem Idempotency.Grows.refl (records : Idempotency) : records.Grows records :=
  ⟨prefix_rfl, prefix_rfl, prefix_rfl, prefix_rfl, prefix_rfl,
    prefix_rfl, prefix_rfl, prefix_rfl, prefix_rfl, prefix_rfl⟩

/-! ## Keys of mutations -/

/-- What identifies one mutation within its scope. -/
inductive MutationKey
  | materialize (buildId : BuildId)
  | retry (key : ManagementKey)
  | claim (leaseId : LeaseId)
  | renew (key : String)
  | append (key : LeaseId × Nat × Nat)
  | complete (origin : CompletionOrigin) (completionId : String)
  | cancel (key : ManagementKey ⊕ String)
  | drainAgent (key : ManagementKey)
  | publishPool (key : ManagementKey)
  | recover (leaseId : LeaseId)

/-- Administration, retention and the scan for expired Leases have no key. -/
def Transaction.key : Transaction → Option MutationKey
  | .materialize request => some (.materialize request.build.id)
  | .retry request => some (.retry request.idempotencyKey)
  | .claim _ request => some (.claim request.leaseId)
  | .renew _ request => some (.renew request.idempotencyKey)
  | .append _ request => some (.append request.key)
  | .complete _ request => some (.complete .agent request.completionId)
  | .failAssignment _ request => some (.complete .assignmentDelivery request.completionId)
  | .cancel _ _ request => some (.cancel request.key)
  | .drainAgent request => some (.drainAgent request.idempotencyKey)
  | .publishPool request => some (.publishPool request.idempotencyKey)
  | .recover request => some (.recover request.claim.leaseId)
  | .claimExpired .. | .administer .. | .hideLogs .. => none

namespace StoreState

/-- Whether a record has a key. -/
def HasKey {Key Request Outcome : Type} (records : IdempotencyRecords Key Request Outcome)
    (key : Key) : Prop :=
  ∃ record ∈ records, record.key = key

/-- A Build is its own record; every other mutation is recorded in its scope. -/
def Used (s : StoreState) : MutationKey → Prop
  | .materialize buildId => ∃ build, s.builds.find? buildId = some build
  | .retry key => HasKey s.idempotency.retryBuild key
  | .claim leaseId => HasKey s.idempotency.claimReadyJob leaseId
  | .renew key => HasKey s.idempotency.renewLease key
  | .append key => HasKey s.idempotency.appendJobEvents key
  | .complete origin completionId => HasKey (s.completionRecords origin) completionId
  | .cancel key => HasKey s.idempotency.cancelBuild key
  | .drainAgent key => HasKey s.idempotency.drainAgent key
  | .publishPool key => HasKey s.idempotency.publishAgentPoolVersion key
  | .recover leaseId => HasKey s.idempotency.recoverExpiredLease leaseId

/-- The statements that make unblocked Jobs ready, signed and queued, and end
    the Jobs that can no longer run. -/
def unblock (rules : CoreRules) (s : StoreState) (ready skipped : List JobId) (issuedAt : Timestamp) :
    Except StoreError StoreState := do
  let s ← s.updateBlockedJobs ready .ready
  let s ← s.updateBlockedJobs skipped .skipped
  let s ← s.signReadyJobs rules ready issuedAt
  s.enqueueReady ready

/-- Ends a Lease together with its Job. -/
def finishJob (s : StoreState) (lease : LeaseRow) (leaseState : LeaseState) (terminal : JobState) :
    StoreState :=
  (s.closeLease lease.id leaseState).updateJobs (fun row => row.id = lease.jobId) terminal

/-- Ends a Lease and makes its Job ready again. -/
def releaseJob (s : StoreState) (lease : LeaseRow) (requeues : Nat) : StoreState :=
  { s.closeLease lease.id .expired with
    jobs := s.jobs.updateWhere (fun job => job.id = lease.jobId) (JobRow.requeued requeues)
              (JobRow.requeued_id requeues) }

/-- The states of the Jobs, of the Leases and of the queue after a cancellation. -/
def propagate (s : StoreState) (cancelled cancelling : List JobId) : StoreState :=
  (((s.updateJobs (fun row => row.id ∈ cancelled) .cancelled).updateJobs
    (fun row => row.id ∈ cancelling) .cancelling).dequeue cancelled).redirectLeases
      (fun row => row.jobId ∈ cancelling) .cancellationRequested

def aggregate (s : StoreState) (attemptId : AttemptId) (buildId : BuildId)
    (attemptState : AttemptState) (buildState : BuildState) : StoreState :=
  (s.setAttemptState attemptId attemptState).setBuildState buildId buildState

/-- One group of statements of a transaction.  Only a `timed` write touches the deadline
    of a Lease, expires it, or changes what was claimed and reported about deadlines; only
    one that `grants` adds a Lease. -/
inductive WriteIn (rules : CoreRules) (timed grants : Bool) : StoreState → StoreState → Prop
  | record {s : StoreState} {records : Idempotency} (hgrows : s.idempotency.Grows records)
      (huntim : timed = false → records.renewLease = s.idempotency.renewLease)
      (happended : ∀ record ∈ records.appendJobEvents,
        record ∈ s.idempotency.appendJobEvents ∨
          ∃ lease, s.leases.find? record.key.1 = some lease ∧
            record.key.2.2 ≤ s.durableThrough lease.jobId := by exact fun _ h => .inl h) :
      WriteIn rules timed grants s { s with idempotency := records }
  | administer {s : StoreState} {change : Administration} (hallow : change.isAllowed s = true) :
      WriteIn rules timed grants s (s.administer change)
  | agents {s : StoreState} {agents : Table AgentRow.id}
      (hkeeps : ∀ id, s.agents.contains id = true → agents.contains id = true) :
      WriteIn rules timed grants s { s with agents }
  | pools {s : StoreState} {pools : Table PoolRow.id} : WriteIn rules timed grants s { s with pools }
  | hideLogs {s : StoreState} {buildId : BuildId} : WriteIn rules timed grants s (s.hideLogs buildId)
  | accept {s s₁ s' : StoreState} {build : BuildRow} {attempt : AttemptRow}
      {jobs : List MaterializedJob} {createdAt : Timestamp} (hbuild : build.state = .running)
      (hins : s.insertBuild build = .ok s₁) (hatt : attempt.buildId = build.id)
      (hstate : attempt.state = .running) (hgraph : materializedGraph jobs = .ok ())
      (hmat : s₁.materializeAttempt rules attempt jobs createdAt = .ok s') : WriteIn rules timed grants s s'
  | retry {s s' : StoreState} {build : BuildRow} {attempt source : AttemptRow}
      {jobs : List MaterializedJob} {createdAt : Timestamp}
      (hbuild : s.builds.find? attempt.buildId = some build) (hfailed : build.state = .failed)
      (hsrc : s.latestAttempt attempt.buildId = some source) (hlost : source.state = .failed)
      (hnum : (attempt.attemptNumber : Nat) = source.attemptNumber + 1)
      (hstate : attempt.state = .running) (hgraph : materializedGraph jobs = .ok ())
      (hmat : s.materializeAttempt rules attempt jobs createdAt = .ok s') :
      WriteIn rules timed grants s (s'.setBuildState attempt.buildId .running)
  | take {s s' : StoreState} {lease : LeaseRow} {job : JobRow} {registration : RegistrationRow}
      (hgrant : grants = true) (hjob : s.jobs.find? lease.jobId = some job) (hready : job.state = .ready)
      (hreg : s.registrations.find? lease.registrationId = some registration)
      (hfree : s.ownsLease registration.agentId = false) (hact : lease.state = .active)
      (htake : s.takeJob lease = .ok s') : WriteIn rules timed grants s s'
  | renew {s s' : StoreState} {lease : LeaseRow} {expiresAt : Timestamp} (htimed : timed = true)
      (hlease : s.leases.find? lease.id = some lease) (hcur : lease.state.isCurrent = true)
      (hrenew : s.renewDeadline lease.id expiresAt = .ok s') : WriteIn rules timed grants s s'
  | begin {s : StoreState} {jobId : JobId} :
      WriteIn rules timed grants s (s.updateJobs (fun row => row.id = jobId ∧ row.state = .leased) .running)
  | events {s : StoreState} {jobId : JobId} {leaseId : LeaseId} {events : List DurableJobEvent}
      (hnumd : events.map (·.sequence) =
        List.range' (s.durableThrough jobId + 1) events.length)
      (hbound : ∀ event ∈ events, event.sequence < 2 ^ 63)
      (hhold : ∃ lease, s.leases.find? leaseId = some lease ∧ lease.jobId = jobId ∧
        lease.state.isCurrent = true) :
      WriteIn rules timed grants s (s.insertEvents jobId leaseId events)
  | logs {s : StoreState} {logChunks : Table LogChunkRow.chunkId}
      {committedThrough : ProjectId → Nat} :
      WriteIn rules timed grants s { s with logChunks, committedThrough }
  | finish {s : StoreState} {lease : LeaseRow} {job : JobRow} {leaseState : LeaseState}
      {terminal : JobState} (huntim : timed = false → leaseState ≠ .expired)
      (hlease : s.leases.find? lease.id = some lease)
      (hcur : lease.state.isCurrent = true) (hended : leaseState.isCurrent = false)
      (hjob : s.jobs.find? lease.jobId = some job) (hheld : isHeld job.state = true)
      (hterm : terminal.isTerminal = true) : WriteIn rules timed grants s (s.finishJob lease leaseState terminal)
  | requeue {s s' : StoreState} {lease : LeaseRow} {path : JobPath} {requeues : Nat}
      (htimed : timed = true)
      (hlease : s.leases.find? lease.id = some lease) (hcur : lease.state.isCurrent = true)
      (hpath : s.locate lease.jobId = some path)
      (hstate : path.job.state = .leased ∨ path.job.state = .running)
      (henq : (s.releaseJob lease requeues).enqueue [lease.jobId] = .ok s') : WriteIn rules timed grants s s'
  | unblock {s s' : StoreState} {ready skipped : List JobId} {issuedAt : Timestamp}
      (hunblk : unblock rules s ready skipped issuedAt = .ok s') : WriteIn rules timed grants s s'
  | aggregate {s : StoreState} {attempt : AttemptRow} {attemptState : AttemptState}
      {buildState : BuildState} (hatt : s.attempts.find? attempt.id = some attempt)
      (hterm : attemptState.isTerminal = true →
        ∀ job ∈ s.attemptJobs attempt.id, job.state.isTerminal = true)
      (hopen : attemptState.isTerminal = false →
        ∃ job ∈ s.attemptJobs attempt.id, job.state.isTerminal = false)
      (hcanc : s.cancellationRequested attempt.buildId = true → buildState ≠ .failed) :
      WriteIn rules timed grants s (s.aggregate attempt.id attempt.buildId attemptState buildState)
  | complete {s s' : StoreState} {row : JobCompletionRow} {job : JobRow} {lease : LeaseRow}
      (hjob : s.jobs.find? row.jobId = some job) (hterm : job.state.isTerminal = true)
      (hlease : s.leases.find? row.leaseId = some lease) (hsame : lease.jobId = row.jobId)
      (hins : s.insertCompletion row = .ok s') : WriteIn rules timed grants s s'
  | cancel {s s' : StoreState} {attempt : AttemptRow} {build : BuildRow}
      {cancelled cancelling : List JobId} {attemptState : AttemptState} {buildState : BuildState}
      (hbuild : s.builds.find? attempt.buildId = some build)
      (hatt : s.latestAttempt attempt.buildId = some attempt)
      (hact : attempt.state.isTerminal = false)
      (hcanc : ∀ id, id ∈ cancelled ↔ ∃ job ∈ s.attemptJobs attempt.id, job.id = id ∧
        (job.state = .blocked ∨ job.state = .ready))
      (hcing : ∀ id, id ∈ cancelling ↔ ∃ job ∈ s.attemptJobs attempt.id, job.id = id ∧
        (job.state = .leased ∨ job.state = .running))
      (hterm : attemptState.isTerminal = true → ∀ job ∈ s.attemptJobs attempt.id,
        afterRequest job.state ≠ .cancelling)
      (hnfail : buildState ≠ .failed)
      (hins : ((s.propagate cancelled cancelling).aggregate attempt.id attempt.buildId attemptState
        buildState).insertCancellation
          ⟨attempt.buildId, attempt.id, cancelled, cancelling, attemptState, buildState⟩ = .ok s') :
      WriteIn rules timed grants s s'
  | redirect {s : StoreState} {p : LeaseRow → Bool} {state : LeaseState}
      (hdir : state = .drainRequested ∨ state = .cancellationRequested) :
      WriteIn rules timed grants s (s.redirectLeases p state)
  | workerClaims {s : StoreState} {workerClaims : Table WorkerClaimRow.leaseId}
      (htimed : timed = true) :
      WriteIn rules timed grants s { s with workerClaims }

abbrev WritesIn (rules : CoreRules) (timed grants : Bool) : StoreState → StoreState → Prop :=
  Relation.ReflTransGen (WriteIn rules timed grants)

abbrev Write (rules : CoreRules) : StoreState → StoreState → Prop := WriteIn rules true true

abbrev Writes (rules : CoreRules) : StoreState → StoreState → Prop := WritesIn rules true true

/-- A mutation changes nothing, or uses its key for the first time. -/
def Mutates (rules : CoreRules) (timed grants : Bool) (key : MutationKey) (s s' : StoreState) : Prop :=
  s' = s ∨ ¬s.Used key ∧ s'.Used key ∧ WritesIn rules timed grants s s'

end StoreState

end OctaCity.Store
