/-
  OctaCity.Store.Materialize

  Materialization of an Attempt: the first one of an accepted Build and the one
  of a retry (`build_materialization.rs`, `attempt_materialization.rs`,
  `retry_build.rs`).
-/
import OctaCity.Orchestrator.Retry
import OctaCity.Store.State

namespace OctaCity.Store

open Domain Job Lib Orchestrator Pipeline

/-! ## Limits and validation -/

def maxMaterializedJobs : Nat := 1024
def maxJobDependencies : Nat := 256
def maxMaterializedDependencyEdges : Nat := 8192
def maxAllowedPoolsPerJob : Nat := 128
def maxRetryBuildBytes : Nat := 8 * 1024 * 1024

namespace MaterializedJob

/-- Roots start ready, every other Job starts blocked. -/
def initialState (job : MaterializedJob) : JobState :=
  if job.dependencies.isEmpty then .ready else .blocked

def node (job : MaterializedJob) : Except OrchestrationError JobGraphNode :=
  JobGraphNode.new job.id job.initialState job.dependencies job.dependencyPolicy

def validate (rules : CoreRules) (job : MaterializedJob) : Except StoreInputError Unit :=
  if job.dependencies.length > maxJobDependencies then .error .tooManyDependencies
  else if job.allowedPools.isEmpty then .error .emptyAllowedPools
  else if job.allowedPools.length > maxAllowedPoolsPerJob then .error .tooManyAllowedPools
  else if ¬ job.dependencies.IsChain (· < ·) then .error .duplicateDependency
  else if job.id ∈ job.dependencies then .error .selfDependency
  else if ¬ job.allowedPools.IsChain (· < ·) then .error .duplicateAllowedPool
  else if !rules.validateRequirements job.requirements then .error .requestTooLarge
  else .ok ()

def row (attemptId : AttemptId) (job : MaterializedJob) : JobRow where
  id := job.id
  attemptId := attemptId
  pipelineNodeId := job.pipelineNodeId
  state := job.initialState
  dependencies := job.dependencies
  dependencyPolicy := job.dependencyPolicy
  allowedPools := job.allowedPools
  requirements := job.requirements
  jobSpecTemplate := job.jobSpecTemplate
  signedJobSpec := none
  infrastructureRequeues := 0

end MaterializedJob

def graphError (operation : StoreOperation) : OrchestrationError → StoreError
  | .duplicateJob _ => .invalidInput operation .duplicateJob
  | .selfDependency _ => .invalidInput operation .selfDependency
  | .duplicateDependency _ => .invalidInput operation .duplicateDependency
  | .unknownDependency _ _ => .invalidInput operation .unknownDependency
  | .emptyGraph => .invalidInput operation .emptyJobGraph
  | .cyclicGraph | .blockedRoot _ | .invalidJobTransition _ | .cancellationNotPropagated _ =>
    .invalidInput operation .cyclicJobGraph

/-- The graph of materialized Jobs, before anything ran. -/
def materializedGraph (jobs : List MaterializedJob) : Except OrchestrationError Unit := do
  let nodes ← jobs.mapM MaterializedJob.node
  validateJobGraph nodes

def validateMaterializedJobs (rules : CoreRules) (operation : StoreOperation) (buildId : BuildId)
    (jobs : List MaterializedJob) : Except StoreError Unit :=
  if jobs.isEmpty then .error (.invalidInput operation .emptyJobGraph)
  else if jobs.length > maxMaterializedJobs then .error (.invalidInput operation .tooManyJobs)
  else if (jobs.map (·.dependencies.length)).sum > maxMaterializedDependencyEdges then
    .error (.invalidInput operation .tooManyDependencyEdges)
  else if jobs.any fun job => job.jobSpecTemplate.buildId ≠ buildId ∨
      job.jobSpecTemplate.pipelineNodeId ≠ job.pipelineNodeId ∨
      !rules.validateTemplate job.jobSpecTemplate then
    .error (.invalidInput operation .jobSpecTemplateBindingMismatch)
  else do
    forM jobs fun job => (job.validate rules).mapError (.invalidInput operation)
    if ¬ jobs.IsChain (·.id < ·.id) then .error (.invalidInput operation .duplicateJob)
    else if ¬ (jobs.map (·.pipelineNodeId)).Nodup then
      .error (.invalidInput operation .duplicatePipelineNode)
    else (materializedGraph jobs).mapError (graphError operation)

/-! ## Equivalence of a retry with its source -/

/-- The Jobs by their nodes; a later Job of a node takes the place of an earlier one. -/
def jobsByNode (jobs : List MaterializedJob) (nodeId : String) : Option MaterializedJob :=
  jobs.reverse.find? (·.pipelineNodeId = nodeId)

def nodesByJobId (jobs : List MaterializedJob) (id : JobId) : Option String :=
  (jobs.reverse.find? (·.id = id)).map (·.pipelineNodeId)

/-- The nodes a Job waits for, in order; `none` when a predecessor is missing. -/
def dependencyNodes (job : MaterializedJob) (nodesById : JobId → Option String) :
    Option (List String) := do
  let nodes ← job.dependencies.mapM nodesById
  some (nodes.insertionSort (· ≤ ·))

/-- Compares two Attempts by their Pipeline nodes; Job identities may differ. -/
def retryGraphIsEquivalent (source candidate : List MaterializedJob) : Bool :=
  (source.map (·.pipelineNodeId)).dedup.length =
      (candidate.map (·.pipelineNodeId)).dedup.length ∧
    (candidate.map (·.pipelineNodeId)).dedup.all fun nodeId =>
      match jobsByNode candidate nodeId, jobsByNode source nodeId with
      | some job, some other =>
        other.dependencyPolicy = job.dependencyPolicy ∧ other.allowedPools = job.allowedPools ∧
          other.requirements = job.requirements ∧
          other.jobSpecTemplate = job.jobSpecTemplate ∧
          dependencyNodes other (nodesByJobId source) = dependencyNodes job (nodesByJobId candidate)
      | _, _ => false

/-- A stored Job as the candidate of a retry sees it. -/
def JobRow.materialized (row : JobRow) : MaterializedJob where
  id := row.id
  pipelineNodeId := row.pipelineNodeId
  dependencies := row.dependencies
  dependencyPolicy := row.dependencyPolicy
  allowedPools := row.allowedPools
  requirements := row.requirements
  jobSpecTemplate := row.jobSpecTemplate

def RetryBuild.validate (rules : CoreRules) (request : RetryBuild) : Except StoreError Unit :=
  if request.attemptNumber = 1 then .error (.invalidInput .retryBuild .invalidRetryAttempt)
  else do
    validateMaterializedJobs rules .retryBuild request.buildId request.jobs
    if (request.jobs.map rules.encodedJobBytes).sum > maxRetryBuildBytes then
      .error (.invalidInput .retryBuild .requestTooLarge)
    else .ok ()

def RetryBuild.fingerprint (request : RetryBuild) : RetryFingerprint :=
  ⟨request.buildId, request.attemptId, request.attemptNumber, request.jobs⟩

namespace StoreState

variable (s : StoreState)

/-! ## Inserts -/

def requirePools (jobs : List MaterializedJob) : Except StoreError Unit :=
  if jobs.all fun job => job.allowedPools.all s.pools.contains then .ok ()
  else .error (.notFound .pool)

def insertBuild (build : BuildRow) : Except StoreError StoreState :=
  match s.builds.insert? build with
  | some builds => .ok { s with builds }
  | none => .error (.duplicate .build)

/-- `attempts_pkey`, `attempts_build_number_key` and
    `attempts_retry_source_unique` guard the row. -/
def insertAttempt (attempt : AttemptRow) : Except StoreError StoreState :=
  if s.attempts.rows.any fun row =>
      (row.buildId = attempt.buildId ∧ row.attemptNumber = attempt.attemptNumber) ∨
        (row.retryOf = attempt.retryOf ∧ row.retryOf.isSome) then
    .error (.duplicate .attempt)
  else
    match s.attempts.insert? attempt with
    | some attempts => .ok { s with attempts }
    | none => .error (.duplicate .attempt)

/-- `insert_jobs` and `insert_dependencies`. -/
def insertJobs (attemptId : AttemptId) (jobs : List MaterializedJob) :
    Except StoreError StoreState := do
  let table ← s.jobs.insertAll (fun _ => .duplicate .job) (jobs.map (·.row attemptId))
  .ok { s with jobs := table }

def rootJobs (jobs : List MaterializedJob) : List JobId :=
  (jobs.filter fun job => job.dependencies.isEmpty).map (·.id)

/-- One Attempt with its Jobs; its roots are signed and queued at once. -/
def materializeAttempt (rules : CoreRules) (attempt : AttemptRow) (jobs : List MaterializedJob)
    (createdAt : Timestamp) : Except StoreError StoreState := do
  let s ← s.insertAttempt attempt
  let s ← s.insertJobs attempt.id jobs
  let s ← s.signReadyJobs rules (rootJobs jobs) createdAt
  s.enqueue (rootJobs jobs)

/-! ## Transactions -/

/-- Accepts one Build with its first Attempt. -/
def materialize (rules : CoreRules) (request : MaterializeBuild) :
    Except StoreError (List JobId × StoreState) := do
  validateMaterializedJobs rules .acceptTrigger request.build.id request.jobs
  s.requirePools request.jobs
  let s ← s.insertBuild
    { id := request.build.id
      projectId := request.build.projectId
      configuration := request.build.configuration
      projectJobConcurrencyLimit := request.build.projectJobConcurrencyLimit
      priority := request.build.priority
      factoryOrigin := request.factoryOrigin
      logsVisible := true
      state := .running }
  let s ← s.materializeAttempt rules
    { id := request.attemptId
      buildId := request.build.id
      attemptNumber := 1
      retryOf := none
      state := .running } request.jobs request.acceptedAt
  .ok (rootJobs request.jobs, s)

/-- The Attempt with the greatest number. -/
def latestAttempt (buildId : BuildId) : Option AttemptRow :=
  (s.attempts.rows.filter fun row => row.buildId = buildId).argmax (·.attemptNumber)

def retryError : RetryDecisionError → StoreError
  | .buildNotFailed => .conflict .build
  | .attemptNotFailed => .conflict .attempt
  | .attemptNumberOverflow => .unavailable

def verifyImmutableGraph (source : AttemptId) (candidates : List MaterializedJob) :
    Except StoreError Unit :=
  if retryGraphIsEquivalent ((s.attemptJobs source).map (·.materialized)) candidates then .ok ()
  else .error (.conflict .attempt)

/-- The part of a retry after its idempotency record was started. -/
def retryFresh (rules : CoreRules) (request : RetryBuild) :
    Except StoreError (RetryDisposition × StoreState) := do
  let build ← okOr (s.builds.find? request.buildId) (.notFound .build)
  -- A Factory retry goes through its own control, never through this operation.
  if build.factoryOrigin.isSome then .error (.conflict .build)
  else
    let source ← okOr (s.latestAttempt request.buildId) (.notFound .attempt)
    let decision ← (decideRetry build.state source.state source.attemptNumber).mapError retryError
    if request.attemptNumber ≠ decision.attemptNumber then .error (.conflict .attempt)
    else
      s.verifyImmutableGraph source.id request.jobs
      let attemptNumber ← number decision.attemptNumber .retryBuild
      let s ← s.materializeAttempt rules
        { id := request.attemptId
          buildId := request.buildId
          attemptNumber
          retryOf := some source.id
          state := decision.attemptState } request.jobs request.requestedAt
      let s := s.setBuildState request.buildId decision.buildState
      .ok ({ disposition := .applied
             buildId := request.buildId
             sourceAttemptId := source.id
             attemptId := request.attemptId
             attemptNumber := decision.attemptNumber
             readyJobs := rootJobs request.jobs }, s)

/-- Retries the latest failed Attempt of a Build. -/
def retryBuild (rules : CoreRules) (request : RetryBuild) :
    Except StoreError (RetryDisposition × StoreState) := do
  request.validate rules
  match ← beginMutation s.idempotency.retryBuild request.idempotencyKey request.fingerprint
      .build with
  | some outcome => .ok ({ outcome with disposition := .replayed }, s)
  | none =>
    let (outcome, s) ← s.retryFresh rules request
    .ok (outcome,
      { s with
        idempotency.retryBuild := commitMutation s.idempotency.retryBuild request.idempotencyKey
                                    request.fingerprint outcome })

end StoreState

end OctaCity.Store
