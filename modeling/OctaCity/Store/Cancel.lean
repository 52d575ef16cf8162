/-
  OctaCity.Store.Cancel

  Cancellation of a Build and the drains of an Agent and of a Pool, the three
  transactions that direct running Leases (`cancel_build.rs`,
  `agent_mutation.rs`, `pool_mutation.rs`, octacity-server-scheduler
  `pool.rs`).
-/
import OctaCity.Orchestrator.Cancellation
import OctaCity.Store.Materialize

namespace OctaCity.Store

open Domain Job Lib Orchestrator Pipeline

/-! ## Cancellation -/

namespace CancelBuild

def key (request : CancelBuild) : ManagementKey ⊕ String :=
  match request.authority with
  | .management key => .inl key
  | .factory operationId _ => .inr operationId

def fingerprint (request : CancelBuild) : CancelFingerprint :=
  match request.authority with
  | .management _ => .management request.buildId
  | .factory _ buildOperationId =>
    .factory request.buildId buildOperationId request.requestedAt

/-- A Factory request names the cancellation of its own operation and carries
    the time it was observed at. -/
def validateAuthority (rules : CoreRules) (observedAt : Timestamp) (request : CancelBuild) :
    Except StoreError Unit :=
  match request.authority with
  | .management _ => .ok ()
  | .factory operationId buildOperationId =>
    if operationId ≠ rules.cancellationOperation buildOperationId ∨
        observedAt < request.requestedAt then
      .error (.conflict .build)
    else .ok ()

end CancelBuild

def cancellationError : CancellationError → StoreError
  | .buildNotActive => .conflict .build
  | .attemptNotActive => .conflict .attempt
  | .emptyAttempt | .duplicateJob _ | .invalidTransition _ => .unavailable

def BuildCancellationRow.outcome (row : BuildCancellationRow) (disposition : MutationDisposition) :
    CancellationDisposition where
  disposition := disposition
  buildId := row.buildId
  attemptId := row.attemptId
  cancelledJobs := row.cancelledJobs
  cancellingJobs := row.cancellingJobs
  attemptState := row.attemptState
  buildState := row.buildState

/-- The Jobs a cancellation decision moves to a state. -/
def cancelledTo (decision : CancellationDecision) (state : JobState) : List JobId :=
  (decision.transitions.filter fun selected => selected.state = state).map (·.jobId)

namespace StoreState

variable (s : StoreState)

/-- `update_jobs`: every listed Job is updated. -/
def cancelJobs (ids : List JobId) (state : JobState) : Except StoreError StoreState :=
  if ids.isEmpty then .ok s else s.updateListedJobs ids (fun _ => true) state

/-- Requests cancellation of one running Lease for each listed Job. -/
def requestLeaseCancellation (ids : List JobId) : Except StoreError StoreState :=
  if ids.isEmpty then .ok s
  else if s.leases.rows.countP (fun row => row.jobId ∈ ids ∧ row.state.takesDirective) ≠ ids.length
  then .error .unavailable
  else .ok (s.redirectLeases (fun row => row.jobId ∈ ids) .cancellationRequested)

def insertCancellation (row : BuildCancellationRow) : Except StoreError StoreState :=
  match s.buildCancellations.insert? row with
  | some buildCancellations => .ok { s with buildCancellations }
  | none => .error (.duplicate .build)

/-- The Factory checks on the Build's origin and on the Run that owns it; the
    second is the business of the Factory tables. -/
def verifyCancellationAuthority (owner : Except StoreError Unit)
    (request : CancelBuild) : Except StoreError Unit :=
  match request.authority with
  | .management _ => .ok ()
  | .factory _ buildOperationId => do
    let build ← okOr (s.builds.find? request.buildId) (.conflict .build)
    let origin ← okOr build.factoryOrigin (.conflict .build)
    if origin ≠ buildOperationId then .error (.conflict .build) else owner

/-- Cancels the active Attempt of a Build without a recorded cancellation. -/
def applyCancellation (request : CancelBuild) (build : BuildRow) :
    Except StoreError (CancellationDisposition × StoreState) := do
  let attempt ← okOr (s.latestAttempt request.buildId) (.notFound .attempt)
  let decision ← (cancelJobStates build.state attempt.state
    ((s.attemptJobs attempt.id).map fun row => (row.id, row.state))).mapError cancellationError
  let cancelled := cancelledTo decision .cancelled
  let cancelling := cancelledTo decision .cancelling
  let s ← s.cancelJobs cancelled .cancelled
  let s ← s.cancelJobs cancelling .cancelling
  let s := s.dequeue cancelled
  let s ← s.requestLeaseCancellation cancelling
  let s := (s.setAttemptState attempt.id decision.attemptState).setBuildState request.buildId
    decision.buildState
  let row : BuildCancellationRow :=
    { buildId := request.buildId
      attemptId := attempt.id
      cancelledJobs := cancelled
      cancellingJobs := cancelling
      attemptState := decision.attemptState
      buildState := decision.buildState }
  let s ← s.insertCancellation row
  .ok (row.outcome .applied, s)

def commitCancellation (request : CancelBuild) (outcome : CancellationDisposition) : StoreState :=
  { s with
    idempotency.cancelBuild :=
      commitMutation s.idempotency.cancelBuild request.key request.fingerprint outcome }

/-- The part of a cancellation after its idempotency record was started. -/
def cancelFresh (owner : Except StoreError Unit) (request : CancelBuild) :
    Except StoreError (CancellationDisposition × StoreState) := do
  s.verifyCancellationAuthority owner request
  let build ← okOr (s.builds.find? request.buildId) (.notFound .build)
  match s.buildCancellations.find? request.buildId with
  | some recorded =>
    let outcome := recorded.outcome .replayed
    .ok (outcome, s.commitCancellation request outcome)
  | none =>
    let (outcome, s) ← s.applyCancellation request build
    .ok (outcome, s.commitCancellation request outcome)

/-- Cancels a Build for a management caller or for its Factory Run. -/
def cancelBuild (rules : CoreRules) (owner : Except StoreError Unit) (observedAt : Timestamp)
    (request : CancelBuild) : Except StoreError (CancellationDisposition × StoreState) := do
  request.validateAuthority rules observedAt
  match ← beginMutation s.idempotency.cancelBuild request.key request.fingerprint .build with
  | some outcome => .ok ({ outcome with disposition := .replayed }, s)
  | none => s.cancelFresh owner request

end StoreState

/-! ## Drains -/

def AgentDrainMode.leaseState : AgentDrainMode → LeaseState
  | .graceful => .drainRequested
  | .forced => .cancellationRequested

def DrainAgent.fingerprint (request : DrainAgent) : DrainFingerprint :=
  ⟨request.agentId, request.expectedVersion, request.mode⟩

def AgentRow.drained (row : AgentRow) : AgentRow :=
  { row with state := .draining, version := row.version + 1 }

theorem AgentRow.drained_id (row : AgentRow) : row.drained.id = row.id := rfl

namespace StoreState

variable (s : StoreState)

/-- The part of a drain after its idempotency record was started. -/
def drainFresh (request : DrainAgent) : Except StoreError StoreState := do
  let agent ← okOr (s.agents.find? request.agentId) (.notFound .agent)
  let expected ← number request.expectedVersion .drainAgent
  if agent.version ≠ expected ∨ agent.state = .draining then .error (.conflict .agent)
  else
    let s := s.redirectLeases (fun row => s.ownerOf row = some request.agentId)
      request.mode.leaseState
    .ok { s with agents := s.agents.updateWhere (fun row => row.id = request.agentId)
                            AgentRow.drained AgentRow.drained_id }

/-- Drains an Agent; its running Leases are directed, their Jobs are not read. -/
def drainAgent (request : DrainAgent) : Except StoreError (Unit × StoreState) := do
  match ← beginMutation s.idempotency.drainAgent request.idempotencyKey request.fingerprint
      .agent with
  | some outcome => .ok (outcome, s)
  | none =>
    let s ← s.drainFresh request
    .ok ((), { s with
               idempotency.drainAgent :=
                 commitMutation s.idempotency.drainAgent request.idempotencyKey
                   request.fingerprint () })

end StoreState

/-- `PoolDrainState::transition_to` followed by its state machine. -/
def PoolDrainState.transitionTo (current requested : PoolDrainState) (activeLeases : Bool) :
    Except StoreError Unit :=
  if current = requested then .ok ()
  else
    match current, requested, activeLeases with
    | .accepting, .gracefulDrain, _ => .ok ()
    | .accepting, .forcedDrain, _ | .gracefulDrain, .forcedDrain, _ => .ok ()
    | .gracefulDrain, .drained, false | .forcedDrain, .drained, false => .ok ()
    | .drained, .accepting, _ => .ok ()
    | _, _, _ => .error (.conflict .pool)

/-- The directive a drain state gives to the running Leases of its Pool. -/
def PoolDrainState.leaseState : PoolDrainState → Option LeaseState
  | .gracefulDrain => some .drainRequested
  | .forcedDrain => some .cancellationRequested
  | .accepting | .drained => none

def PublishAgentPoolVersion.fingerprint (request : PublishAgentPoolVersion) : PublishFingerprint :=
  ⟨request.id, request.expectedCurrentVersion, request.definition⟩

def PublishAgentPoolVersion.row (request : PublishAgentPoolVersion) (version : Nat) : PoolRow where
  id := request.id
  version := version
  enabled := request.definition.enabled
  drainState := request.definition.drainState
  admissionPolicy := request.definition.admissionPolicy
  concurrencyLimit := request.definition.concurrencyLimit
  fairnessPolicy := request.definition.fairnessPolicy
  publishedAt := request.publishedAt

namespace StoreState

variable (s : StoreState)

def applyLeaseDirective (poolId : PoolId) (drainState : PoolDrainState) : StoreState :=
  match drainState.leaseState with
  | some requested => s.redirectLeases (fun row => row.poolId = poolId) requested
  | none => s

/-- The part of a publication after its idempotency record was started. -/
def publishFresh (request : PublishAgentPoolVersion) : Except StoreError (Nat × StoreState) := do
  let current ← okOr (s.pools.find? request.id) (.notFound .pool)
  if current.version ≠ request.expectedCurrentVersion ∨
      request.publishedAt < current.publishedAt then
    .error (.conflict .pool)
  else
    let activeLeases := s.currentLeases.any fun lease => lease.poolId = request.id
    current.drainState.transitionTo request.definition.drainState activeLeases
    let s := s.applyLeaseDirective request.id request.definition.drainState
    let version := current.version + 1
    .ok (version, { s with pools := s.pools.put (request.row version) })

/-- Publishes the next version of a Pool. -/
def publishAgentPoolVersion (rules : CoreRules) (request : PublishAgentPoolVersion) :
    Except StoreError (Nat × StoreState) := do
  if !rules.validateDefinition request.definition then .error (.conflict .pool)
  else
    match ← beginMutation s.idempotency.publishAgentPoolVersion request.idempotencyKey
        request.fingerprint .pool with
    | some outcome => .ok (outcome, s)
    | none =>
      let (version, s) ← s.publishFresh request
      .ok (version,
        { s with
          idempotency.publishAgentPoolVersion :=
            commitMutation s.idempotency.publishAgentPoolVersion request.idempotencyKey
              request.fingerprint version })

end StoreState

end OctaCity.Store
