/-
  OctaCity.Store.Lease

  Fenced operations of a Lease holder: the heartbeat and the event append
  (`lease.rs`, `lease_heartbeat.rs`, `job_events.rs`, `job_model.rs`).

  `now` is the transaction time of the database; every other time comes with
  the request.
-/
import OctaCity.Store.State
import Mathlib.Data.Prod.Lex

namespace OctaCity.Store

open Domain Job Lib Orchestrator Pipeline

/-! ## Loading a Lease -/

/-- A Lease with everything `lease::load` joins to it. -/
structure LoadedLease where
  lease : LeaseRow
  path : StoreState.JobPath
  registration : RegistrationRow
  agent : AgentRow
  expired : Bool

namespace StoreState

variable (s : StoreState)

/-- `leases JOIN jobs JOIN attempts JOIN builds JOIN agent_registrations JOIN agents`. -/
def joinLease (now : Timestamp) (leaseId : LeaseId) : Option LoadedLease := do
  let lease ← s.leases.find? leaseId
  let path ← s.locate lease.jobId
  let registration ← s.registrations.find? lease.registrationId
  let agent ← s.agents.find? registration.agentId
  some ⟨lease, path, registration, agent, lease.expiresAt ≤ now⟩

/-- Loads a Lease for its holder. -/
def loadLease (now : Timestamp) (access : LeaseAccess) (operation : StoreOperation) :
    Except StoreError LoadedLease := do
  let epoch ← number access.registrationEpoch operation
  let row ← okOr (s.joinLease now access.leaseId) (.fenced access.leaseId)
  if row.agent.id ≠ access.agentId ∨ row.lease.registrationEpoch ≠ epoch ∨
      row.lease.fence ≠ access.fence then
    .error (.fenced access.leaseId)
  else .ok row

end StoreState

def requireCurrent (row : LoadedLease) (access : LeaseAccess) (observedAt : Timestamp) :
    Except StoreError Unit :=
  if row.expired ∨ row.lease.state = .expired ∨ row.lease.expiresAt ≤ observedAt then
    .error (.expired access.leaseId)
  else if row.registration.revoked ∨ row.registration.expiresAt ≤ observedAt then
    .error (.fenced access.leaseId)
  else if !row.lease.state.isCurrent then .error (.fenced access.leaseId)
  else .ok ()

/-! ## Heartbeat -/

def RenewLease.validate (request : RenewLease) : Except StoreError Unit :=
  if request.expiresAt ≤ request.observedAt then
    .error (.invalidInput .renewLease .invalidLeaseWindow)
  else .ok ()

def RenewLease.fingerprint (request : RenewLease) : RenewFingerprint :=
  ⟨request.attempt, request.jobId, request.lease⟩

namespace StoreState

variable (s : StoreState)

/-- The control decision for a current Lease; a cancelled one is not renewed. -/
def directive (request : RenewLease) (state : LeaseState) :
    Except StoreError (LeaseHeartbeatOutcome × StoreState) :=
  match state with
  | .active => do
    let s ← s.renewDeadline request.lease.leaseId request.expiresAt
    .ok (.continue request.expiresAt, s)
  | .cancellationRequested => .ok (.cancel, s)
  | .drainRequested => do
    let s ← s.renewDeadline request.lease.leaseId request.expiresAt
    .ok (.drain request.expiresAt, s)
  | .completed | .expired => .ok (.fenced, s)

/-- A fenced or expired holder is told so and nothing is stored. -/
def fencedOutcome (error : StoreError) : Except StoreError (LeaseHeartbeatOutcome × StoreState) :=
  match error with
  | .fenced _ | .expired _ => .ok (.fenced, s)
  | error => .error error

/-- The part of a heartbeat after its idempotency record was started. -/
def renewFresh (now : Timestamp) (request : RenewLease) :
    Except StoreError (LeaseHeartbeatOutcome × StoreState) :=
  match s.loadLease now request.lease .renewLease with
  | .error error => s.fencedOutcome error
  | .ok row =>
    if row.lease.jobId ≠ request.jobId ∨ (row.path.attempt.attemptNumber : Nat) ≠ request.attempt then
      .ok (.fenced, s)
    else
      match requireCurrent row request.lease request.observedAt with
      | .error error => s.fencedOutcome error
      | .ok () => do
        let (outcome, s) ← s.directive request row.lease.state
        .ok (outcome,
          { s with
            idempotency.renewLease :=
              commitMutation s.idempotency.renewLease request.idempotencyKey request.fingerprint
                outcome })

def renewLease (now : Timestamp) (request : RenewLease) :
    Except StoreError (LeaseHeartbeatOutcome × StoreState) := do
  request.validate
  match ← beginMutation s.idempotency.renewLease request.idempotencyKey request.fingerprint
      .lease with
  | some outcome => .ok (outcome, s)
  | none => s.renewFresh now request

end StoreState

/-! ## Event batches -/

def maxJobEventBatchSize : Nat := 256
def maxJobEventBatchBytes : Nat := 8 * 1024 * 1024

def invalidLogChunks : StoreError := .invalidInput .appendJobEvents .invalidLogChunkManifest

namespace AppendJobEvents

def firstSequence (request : AppendJobEvents) : Nat :=
  (request.events.head?.map (·.sequence)).getD 0

def lastSequence (request : AppendJobEvents) : Nat :=
  (request.events.getLast?.map (·.sequence)).getD 0

/-- Bounds and sequence continuity of one batch and the ranges of its chunks. -/
def validate (rules : CoreRules) (request : AppendJobEvents) : Except StoreError Unit :=
  if request.events.isEmpty then .error (.invalidInput .appendJobEvents .emptyEventBatch)
  else if request.events.length > maxJobEventBatchSize then
    .error (.invalidInput .appendJobEvents .eventBatchTooLarge)
  else if (request.events.map rules.encodedEventBytes).sum > maxJobEventBatchBytes then
    .error (.invalidInput .appendJobEvents .requestTooLarge)
  else if ¬ request.events.IsChain (fun a b => a.sequence + 1 = b.sequence) then
    .error (.invalidInput .appendJobEvents .nonContiguousEventBatch)
  else
    let ranges := (request.logChunks.map fun chunk =>
      (chunk.firstSequence, chunk.lastSequence)).mergeSort fun a b => toLex a ≤ toLex b
    if ranges.any (fun range => range.1 < request.firstSequence ∨ range.2 > request.lastSequence ∨
          range.1 = 0 ∨ range.2 < range.1) ∨
        ¬ ranges.IsChain (fun a b => a.2 < b.1) then
      .error invalidLogChunks
    else .ok ()

def key (request : AppendJobEvents) : LeaseId × Nat × Nat :=
  (request.lease.leaseId, request.firstSequence, request.lastSequence)

def fingerprint (request : AppendJobEvents) : AppendFingerprint :=
  ⟨request.lease, request.events, request.logChunks⟩

end AppendJobEvents

def logStream (event : DurableJobEvent) : Option BuildLogStream :=
  if event.kind = "stdout" then some .stdout
  else if event.kind = "stderr" then some .stderr
  else none

def BuildLogStream.rank : BuildLogStream → Nat
  | .stdout => 0
  | .stderr => 1

/-- The sequences a chunk covers, with its stream. -/
def LogChunkManifest.covered (chunk : LogChunkManifest) : List (Nat × BuildLogStream) :=
  (List.range' chunk.firstSequence (chunk.lastSequence + 1 - chunk.firstSequence)).map
    (·, chunk.stream)

def byPosition (a b : Nat × BuildLogStream) : Bool := toLex (a.1, a.2.rank) ≤ toLex (b.1, b.2.rank)

/-- Manifests cover every newly accepted log event exactly once. -/
def validateNewLogChunks (events : List DurableJobEvent) (durableThrough : Nat)
    (chunks : List LogChunkManifest) : Except StoreError Unit :=
  let expected := (events.filter fun event => event.sequence > durableThrough).filterMap
    fun event => (logStream event).map (event.sequence, ·)
  if chunks.any fun chunk => chunk.firstSequence ≤ durableThrough then .error invalidLogChunks
  else if (chunks.flatMap (·.covered)).mergeSort byPosition ≠ expected.mergeSort byPosition then
    .error invalidLogChunks
  else .ok ()

/-- Applies the execution-start fact; later deliveries observe it. -/
def startJobExecution (current : JobState) : Except StoreError JobState :=
  match current with
  | .leased => (current.transition .executionStarted).mapError fun _ => .unavailable
  | .running | .cancelling => .ok current
  | _ => .error (.conflict .job)

namespace StoreState

variable (s : StoreState)

def durableEvent (jobId : JobId) (sequence : Nat) : Option DurableJobEvent :=
  (s.jobEvents.find? fun row => row.jobId = jobId ∧ row.event.sequence = sequence).map (·.event)

/-- The new events of a batch; the durable ones have to be the same. -/
def acceptEvents (jobId : JobId) (durableThrough : Nat) :
    Nat → List DurableJobEvent → Except StoreError (List DurableJobEvent)
  | _, [] => .ok []
  | expected, event :: rest =>
    if event.sequence ≤ durableThrough then
      if (s.durableEvent jobId event.sequence).map (·.digest) ≠ some event.digest then
        .error (.conflict .job)
      else acceptEvents jobId durableThrough expected rest
    else if event.sequence ≠ expected then .error (.eventGap jobId expected event.sequence)
    else do
      let _ ← number event.sequence .appendJobEvents
      let accepted ← acceptEvents jobId durableThrough (expected + 1) rest
      .ok (event :: accepted)

def persistExecutionStarted (jobId : JobId) : Except StoreError StoreState := do
  let job ← okOr (s.jobs.find? jobId) .unavailable
  let next ← startJobExecution job.state
  if next ≠ job.state then .ok (s.updateJobs (fun row => row.id = jobId ∧ row.state = job.state) next)
  else .ok s

/-- Only new events start the Job. -/
def startForEvents (jobId : JobId) (newEvents : List DurableJobEvent) :
    Except StoreError StoreState :=
  if newEvents.isEmpty then .ok s else s.persistExecutionStarted jobId

/-- Adds the new events of one append. -/
def insertEvents (jobId : JobId) (leaseId : LeaseId) (events : List DurableJobEvent) : StoreState :=
  { s with jobEvents := s.jobEvents ++ events.map fun event => ⟨jobId, leaseId, event⟩ }

/-- One chunk manifest with its indexing work at the next Project position. -/
def insertLogChunk (path : JobPath) (s : StoreState) (chunk : LogChunkManifest) :
    Except StoreError StoreState := do
  let position := s.committedThrough path.build.projectId + 1
  let _ ← number chunk.firstSequence .appendJobEvents
  let _ ← number chunk.lastSequence .appendJobEvents
  let _ ← number chunk.byteLength .appendJobEvents
  let row : LogChunkRow :=
    { manifest := chunk
      buildId := path.build.id
      attemptId := path.attempt.id
      jobId := path.job.id
      projectId := path.build.projectId
      position }
  let logChunks ← okOr (s.logChunks.insert? row) (.duplicate .logChunk)
  if s.logChunks.rows.any fun other => other.manifest.indexingWorkId = chunk.indexingWorkId then
    .error (.duplicate .logIndexingWork)
  else
    .ok { s with
          logChunks
          committedThrough := Function.update s.committedThrough path.build.projectId position }

def persistLogChunks (path : JobPath) (chunks : List LogChunkManifest) :
    Except StoreError StoreState :=
  if chunks.isEmpty then .ok s
  else if !path.build.logsVisible then .error (.conflict .build)
  else chunks.foldlM (insertLogChunk path) s

/-- The part of an append after its idempotency record was started. -/
def appendFresh (now : Timestamp) (request : AppendJobEvents) :
    Except StoreError (AppendJobEventsOutcome × StoreState) := do
  let row ← s.loadLease now request.lease .appendJobEvents
  requireCurrent row request.lease request.acceptedAt
  let jobId := row.lease.jobId
  let durableThrough := s.durableThrough jobId
  let _ ← number request.firstSequence .appendJobEvents
  let newEvents ← s.acceptEvents jobId durableThrough (durableThrough + 1) request.events
  validateNewLogChunks request.events durableThrough request.logChunks
  let s ← s.startForEvents jobId newEvents
  let s := s.insertEvents jobId request.lease.leaseId newEvents
  let s ← s.persistLogChunks row.path request.logChunks
  let acknowledged := durableThrough + newEvents.length
  let outcome : AppendJobEventsOutcome := ⟨acknowledged, newEvents.length⟩
  .ok (outcome,
    { s with
      idempotency.appendJobEvents :=
        commitMutation s.idempotency.appendJobEvents request.key request.fingerprint outcome })

def appendJobEvents (rules : CoreRules) (now : Timestamp) (request : AppendJobEvents) :
    Except StoreError (AppendJobEventsOutcome × StoreState) := do
  request.validate rules
  match ← beginMutation s.idempotency.appendJobEvents request.key request.fingerprint .job with
  | some outcome => .ok (outcome, s)
  | none => s.appendFresh now request

end StoreState

end OctaCity.Store
