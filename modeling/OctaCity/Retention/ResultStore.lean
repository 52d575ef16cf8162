/-
  OctaCity.Retention.ResultStore

  The transactions that retain Build Results (`operations/retention.rs`,
  `artifacts/artifact/retention.rs`): a worker claims due work, prepares it,
  settles the deletion of its search documents and of each object, and ends the
  pass by finishing or failing it.
-/
import OctaCity.Retention.ResultRows

namespace OctaCity.Retention

open Domain Lib Store
open Factory (FactoryRunId)

/-! ## Requests and answers -/

/-- `MAX_RETENTION_WORK_BATCH_SIZE` and `MAX_RETENTION_OBJECT_BATCH_SIZE`. -/
def maxRetentionBatchSize : Nat := 64

/-- A size that the constructors of the requests accept. -/
structure BatchLimit where
  value : Nat
  positive : 0 < value
  bounded : value ≤ maxRetentionBatchSize

structure ClaimRetentionWork where
  owner : WorkerOwner
  observedAt : Timestamp
  claimExpiresAt : Timestamp
  limit : BatchLimit
  ascending : observedAt < claimExpiresAt

/-- Ownership of one work row for one pass. -/
structure RetentionWorkClaim where
  workId : RetentionWorkId
  projectId : ProjectId
  buildId : BuildId
  component : BuildResultComponent
  deadline : Timestamp
  phase : RetentionPhase
  attempt : Fin (2 ^ 16)
  owner : WorkerOwner
  claimExpiresAt : Timestamp
  deriving DecidableEq

structure PrepareRetentionWork where
  workId : RetentionWorkId
  owner : WorkerOwner
  observedAt : Timestamp
  objectLimit : BatchLimit

structure DeleteLogSearchDocuments where
  workId : LogIndexingWorkId
  position : Nat
  projectId : ProjectId
  buildId : BuildId
  deriving DecidableEq

inductive RetentionObject
  | log (manifest : LogChunkManifest)
  | output (upload : OutputRow)
  deriving DecidableEq

inductive RetentionObjectIdentity
  | log (chunk : LogChunkId)
  | output (artifact : ArtifactId)

def RetentionObject.identity : RetentionObject → RetentionObjectIdentity
  | log manifest => .log manifest.chunkId
  | output upload => .output upload.id

structure RetentionPreparation where
  searchDeletion : Option DeleteLogSearchDocuments
  objects : List RetentionObject

inductive RetentionPassOutcome
  | completed
  | pending

structure FailRetentionWork where
  workId : RetentionWorkId
  owner : WorkerOwner
  failedAt : Timestamp
  errorCode : String
  retryAt : Option Timestamp

namespace ResultDb

variable (ids : DerivedIds) (s : ResultDb)

/-- The view `factory_run_builds`. -/
def isLinked (run : FactoryRunId) (build : BuildId) : Bool :=
  (s.factory.rows.any fun row =>
    match row with
    | .flowBuildExecution owner id _ _ => owner = run ∧ s.executionBuild id = build
    | _ => false) ∨
  s.builds.rows.any fun row => row.id = build ∧ row.factoryOrigin = some run

/-- Whether a linked Run is visible or still releases its references. -/
def isKeptByRun (build : BuildId) : Bool :=
  s.factory.runs.rows.any fun run =>
    s.isLinked run.id build ∧
      (run.visible ∨ (s.factory.work.find? run.id).any fun work => work.phase = .hidden)

/-- Whether a Run holds an unreleased reference to an output of the Build. -/
def isReferenced (build : BuildId) : Bool :=
  s.factory.rows.any fun row =>
    match row with
    | .artifactReference _ artifact _ =>
      s.factory.releasedAt row = none ∧
        (s.outputs.find? artifact).any fun output => output.buildId = build
    | _ => false

def isRetained (build : BuildId) (observedAt : Timestamp) : Bool :=
  (s.holds build).isActive observedAt ∨ s.isKeptByRun build ∨ s.isReferenced build

/-! ## Claiming -/

def isClaimable (observedAt : Timestamp) (work : RetentionWork) : Bool :=
  work.completedAt = none ∧ work.availableAt ≤ observedAt ∧
    (∀ claim ∈ work.claim, claim.expiresAt ≤ observedAt) ∧ ¬ s.isRetained work.buildId observedAt

/-- The rows a claim selects; rows that others have locked are skipped. -/
def claimPage (request : ClaimRetentionWork) (locked : List RetentionWorkId) : List RetentionWork :=
  ((s.work.rows.filter fun work =>
      work.id ∉ locked ∧ s.isClaimable request.observedAt work).mergeSort fun a b =>
    a.availableAt < b.availableAt ∨ a.availableAt = b.availableAt ∧ a.id ≤ b.id).take
      request.limit.value

/-- `ClaimRow::into_claim`: the attempt of a claim has 16 bits. -/
def intoClaim (work : RetentionWork) : Except ResultError RetentionWorkClaim :=
  match work.claim with
  | none => .error .unavailable
  | some claim =>
    if h : work.attemptCount < 2 ^ 16 then
      .ok
        { workId := work.id
          projectId := work.projectId
          buildId := work.buildId
          component := work.component
          deadline := work.deadline
          phase := work.phase
          attempt := ⟨work.attemptCount, h⟩
          owner := claim.owner
          claimExpiresAt := claim.expiresAt }
    else .error .unavailable

/-- `claim`. The rows stay claimed when one of them has no valid claim. -/
def claim (request : ClaimRetentionWork) (locked : List RetentionWorkId) :
    ResultDb × Except ResultError (List RetentionWorkClaim) :=
  let page := s.claimPage request locked
  let ownership : WorkClaim := ⟨request.owner, request.claimExpiresAt⟩
  let claimed := (page.map (.acquire ownership)).mergeSort fun a b =>
    a.deadline < b.deadline ∨ a.deadline = b.deadline ∧ a.id ≤ b.id
  ({ s with
      work := s.work.updateWhere (fun work => work ∈ page) (.acquire ownership)
        (RetentionWork.acquire_id ownership) },
    claimed.mapM intoClaim)

/-! ## Preparing a pass -/

def lockWork (id : RetentionWorkId) (owner : WorkerOwner) (observedAt : Timestamp) :
    Except ResultError RetentionWork :=
  match s.work.find? id with
  | none => .error (.conflict .retentionWork)
  | some work =>
    if work.completedAt = none ∧ work.isClaimedBy owner observedAt then .ok work
    else .error (.conflict .retentionWork)

/-- Adds a hold version; its number must fit its column. -/
def addHold (build : BuildId) (row : HoldRow) : Except ResultError ResultDb :=
  if (s.holds build).nextVersion < 2 ^ 63 then
    .ok { s with holds := fun other => if other = build then (s.holds build).add row else s.holds other }
  else .error .unavailable

/-- `active_for_retention`: whether the latest hold is active; one that is due
    to expire is expired by a further version. -/
def activeForRetention (build : BuildId) (observedAt : Timestamp) :
    Except ResultError (ResultDb × Bool) :=
  match (s.holds build).latest with
  | none => .ok (s, false)
  | some hold =>
    if hold.releasedAt.isSome ∨ hold.expiredAt.isSome then .ok (s, false)
    else
      match hold.expiresAt with
      | none => .ok (s, true)
      | some expiry =>
        if observedAt < expiry then .ok (s, true)
        else do
          let s ← s.addHold build { hold with expiredAt := some expiry }
          .ok (s, false)

def lockBuildAndCheckRetention (build : BuildId) (observedAt : Timestamp) :
    Except ResultError (ResultDb × Bool) :=
  if s.builds.contains build then do
    let (s, held) ← s.activeForRetention build observedAt
    .ok (s, held ∨ s.isKeptByRun build ∨ s.isReferenced build)
  else .error (.notFound .build)

def hideBuildComponent (build : BuildId) (component : BuildResultComponent)
    (observedAt : Timestamp) : ResultDb :=
  { s with
    builds := s.builds.updateWhere (fun row => row.id = build) (.hide component observedAt)
      (BuildResultRow.hide_id component observedAt) }

def hideChunks (build : BuildId) (observedAt : Timestamp) : ResultDb :=
  { s with
    chunks := s.chunks.updateWhere (fun row => row.buildId = build ∧ row.visible)
      (.hide observedAt) (ResultLogRow.hide_chunkId observedAt) }

/-- Inserts indexing work at the next position of its Project. -/
def insertIndexing (row : LogIndexingWork) : Except ResultError ResultDb :=
  if s.indexing.rows.any fun other =>
      other.projectId = row.projectId ∧ other.position = row.position then
    .error (.duplicate .logIndexingWork)
  else do
    let indexing ← okOr (s.indexing.insert? row) (.duplicate .logIndexingWork)
    .ok { s with indexing }

/-- Inserts indexing work unless a row of its identity is there. -/
def ensureIndexing (row : LogIndexingWork) : Except ResultError ResultDb :=
  if s.indexing.contains row.id then .ok s else s.insertIndexing row

/-- Records the search deletion of a work row and the position it takes. -/
def assignSearch (work : RetentionWork) (searchWork : LogIndexingWorkId) (position : Nat) :
    ResultDb :=
  { s with
    committedThrough := fun project =>
      if project = work.projectId then max (s.committedThrough project) position
      else s.committedThrough project
    work := s.work.updateWhere (fun row => row.id = work.id) (.allocate searchWork position)
      (RetentionWork.allocate_id searchWork position) }

/-- The work that deletes the search documents of a Build. -/
def deletionWork (work : RetentionWork) (observedAt : Timestamp) : LogIndexingWork where
  id := ids.searchWork work.buildId
  projectId := work.projectId
  position := s.committedThrough work.projectId + 1
  buildId := work.buildId
  chunkId := none
  operation := .deleteBuild
  state := .pending
  attemptCount := 0
  availableAt := observedAt
  claim := none
  lastClaimOwner := none
  completedAt := none
  lastFailure := none

def allocateSearchDeletion (work : RetentionWork) (observedAt : Timestamp) :
    Except ResultError (ResultDb × RetentionWork) :=
  if work.search.isSome then .ok (s, work)
  else
    let row := s.deletionWork ids work observedAt
    if row.position < 2 ^ 63 then do
      let s ← s.ensureIndexing row
      .ok (s.assignSearch work row.id row.position, work.allocate row.id row.position)
    else .error .unavailable

def enterPhase (id : RetentionWorkId) (phase : RetentionPhase) : ResultDb :=
  { s with
    work := s.work.updateWhere (fun work => work.id = id) (.enter phase)
      (RetentionWork.enter_id phase) }

/-- The statements of `hide_component` for each component. -/
def hideRows (work : RetentionWork) (observedAt : Timestamp) :
    Except ResultError (ResultDb × RetentionWork) :=
  let hidden := s.hideBuildComponent work.buildId work.component observedAt
  match work.component with
  | .logs => (hidden.hideChunks work.buildId observedAt).allocateSearchDeletion ids work observedAt
  | .metadata | .artifacts | .reports => .ok (hidden, work)

def hideComponent (work : RetentionWork) (observedAt : Timestamp) :
    Except ResultError (ResultDb × RetentionWork) := do
  let (s, work) ← s.hideRows ids work observedAt
  .ok (s.enterPhase work.id .hidden, work.enter .hidden)

def logRetentionPage (build : BuildId) (limit : BatchLimit) : List RetentionObject :=
  ((s.chunks.rows.filter fun row =>
      row.buildId = build ∧ ¬ row.visible ∧ row.deletedAt = none).take limit.value).map fun row =>
    .log row.manifest

def isVisible (build : BuildId) (component : BuildResultComponent) : Bool :=
  (s.builds.find? build).any fun row => row.visible component

def setOutput (row : OutputRow) : ResultDb :=
  { s with outputs := s.outputs.put row }

def updateArtifactAndUpload (row : OutputRow) (event : ArtifactEvent) : Except ResultError ResultDb :=
  match row.state.uploadState with
  | none => .error (.conflict .artifactUpload)
  | some uploadState =>
    .ok (s.setOutput
      { row with
        uploadState
        uploadCompletedAt := if event = .publish then row.publishedAt else none })

/-- One row of `retention_page`: a published output expires and one that is being
    verified is withdrawn before its bytes are deleted. -/
def withdrawOutput (observedAt : Timestamp) (s : ResultDb) (row : OutputRow) :
    Except ResultError (ResultDb × OutputRow) :=
  match row.state with
  | .pending | .expired => .ok (s, row)
  | .deleted => .error .unavailable
  | .published => do
    let row ← okOr (row.transition .expire observedAt) (.conflict .artifact)
    .ok (s.setOutput row, row)
  | .verifying => do
    let row ← okOr (row.transition .verificationFailed observedAt) (.conflict .artifact)
    let s ← s.updateArtifactAndUpload row .verificationFailed
    .ok (s, row)

/-- The outputs of a hidden component that are not deleted, in the order of their
    identities. -/
def outputPage (build : BuildId) (component : BuildResultComponent) (limit : BatchLimit) :
    List OutputRow :=
  (s.outputs.rows.filter fun row =>
    row.buildId = build ∧ row.component = component ∧ ¬ s.isVisible build component ∧
      row.state ≠ .deleted).take limit.value

def retentionPage (build : BuildId) (component : BuildResultComponent) (limit : BatchLimit)
    (observedAt : Timestamp) : Except ResultError (ResultDb × List RetentionObject) :=
  (s.outputPage build component limit).foldlM (fun (s, uploads) row => do
    let (s, row) ← withdrawOutput observedAt s row
    .ok (s, uploads ++ [.output row])) (s, [])

def retentionObjects (work : RetentionWork) (limit : BatchLimit) (observedAt : Timestamp) :
    Except ResultError (ResultDb × List RetentionObject) :=
  match work.component with
  | .metadata => .ok (s, [])
  | .logs => .ok (s, s.logRetentionPage work.buildId limit)
  | .artifacts | .reports => s.retentionPage work.buildId work.component limit observedAt

/-- The deletion of search documents that hidden logs wait for. -/
def searchDeletion (work : RetentionWork) : Except ResultError (Option DeleteLogSearchDocuments) :=
  if work.component = .logs ∧ work.phase = .hidden then
    match work.search with
    | none => .error .unavailable
    | some (workId, position) => .ok (some ⟨workId, position, work.projectId, work.buildId⟩)
  else .ok none

/-- Hides the component of pending work that nothing keeps. -/
def hideUnretained (work : RetentionWork) (retained : Bool) (observedAt : Timestamp) :
    Except ResultError (ResultDb × RetentionWork) :=
  if work.phase = .pending ∧ ¬ retained then s.hideComponent ids work observedAt else .ok (s, work)

/-- The objects of a pass; those of logs wait for the search deletion. -/
def readyObjects (work : RetentionWork) (limit : BatchLimit) (observedAt : Timestamp) :
    Except ResultError (ResultDb × List RetentionObject) :=
  if work.component = .logs ∧ work.phase ≠ .searchDeleted then .ok (s, [])
  else s.retentionObjects work limit observedAt

def prepare (request : PrepareRetentionWork) :
    Except ResultError (ResultDb × RetentionPreparation) := do
  let work ← s.lockWork request.workId request.owner request.observedAt
  let (s, retained) ← s.lockBuildAndCheckRetention work.buildId request.observedAt
  let (s, work) ← s.hideUnretained ids work retained request.observedAt
  let searchDeletion ← searchDeletion work
  let (s, objects) ← s.readyObjects work request.objectLimit request.observedAt
  .ok (s, { searchDeletion, objects })

/-! ## Settling the deletions -/

/-- The statements of `complete_search` on the indexing work of a Build. -/
def settleIndexing (work : RetentionWork) (searchWork : LogIndexingWorkId) (position : Nat)
    (completedAt : Timestamp) : ResultDb :=
  { s with
    indexing :=
      (s.indexing.updateWhere
        (fun row => row.projectId = work.projectId ∧ row.buildId = work.buildId ∧
          row.position < position)
        (.supersede completedAt) (LogIndexingWork.supersede_id completedAt)).updateWhere
        (fun row => row.id = searchWork) (.settle completedAt)
        (LogIndexingWork.settle_id completedAt) }

def completeSearch (id : RetentionWorkId) (owner : WorkerOwner) (completedAt : Timestamp) :
    Except ResultError ResultDb := do
  let work ← s.lockWork id owner completedAt
  if work.component ≠ .logs then .error (.conflict .retentionWork)
  else if work.phase = .hidden then
    match work.search with
    | none => .error .unavailable
    | some (searchWork, position) =>
      .ok ((s.settleIndexing work searchWork position completedAt).enterPhase id .searchDeleted)
  else .ok s

/-- The log branch of `complete_object`. -/
def completeLog (build : BuildId) (chunk : LogChunkId) (completedAt : Timestamp) :
    Except ResultError ResultDb :=
  match s.chunks.find? chunk with
  | none => .error (.notFound .logChunk)
  | some row =>
    if row.buildId ≠ build then .error (.notFound .logChunk)
    else if ¬ row.visible ∧ row.deletedAt = none then
      .ok { s with
            chunks := s.chunks.updateWhere (fun row => row.chunkId = chunk) (.delete completedAt)
              (ResultLogRow.delete_chunkId completedAt) }
    else if row.deletedAt.isSome then .ok s
    else .error (.conflict .retentionWork)

/-- The deleted record of an output that may be deleted. -/
def deletedOutput (current : OutputRow) (completedAt : Timestamp) : Except ResultError OutputRow :=
  match current.state with
  | .deleted => .ok current
  | .pending | .expired => okOr (current.transition .delete completedAt) (.conflict .artifact)
  | .verifying | .published => .error (.conflict .artifact)

def completeRetention (artifact : ArtifactId) (completedAt : Timestamp) :
    Except ResultError ResultDb := do
  let current ← okOr (s.outputs.find? artifact) (.notFound .artifact)
  let updated ← deletedOutput current completedAt
  .ok (s.setOutput
    { updated with
      uploadState := .deleted
      uploadCompletedAt := updated.uploadCompletedAt.or (some completedAt) })

def completeObject (id : RetentionWorkId) (owner : WorkerOwner) (object : RetentionObjectIdentity)
    (completedAt : Timestamp) : Except ResultError ResultDb := do
  let work ← s.lockWork id owner completedAt
  match work.component, object with
  | .logs, .log chunk => s.completeLog work.buildId chunk completedAt
  | .artifacts, .output artifact | .reports, .output artifact =>
    s.completeRetention artifact completedAt
  | _, _ => .error (.conflict .retentionWork)

/-- `remaining_objects`. For outputs it selects on a column `visible`, which the
    table `artifacts` does not have, so the statement always fails. -/
def remainingObjects (work : RetentionWork) : Except ResultError Bool :=
  match work.component with
  | .metadata => .ok false
  | .logs =>
    .ok (s.chunks.rows.any fun row =>
      row.buildId = work.buildId ∧ ¬ row.visible ∧ row.deletedAt = none)
  | .artifacts | .reports => .error .unavailable

def yieldWork (id : RetentionWorkId) (availableAt : Option Timestamp) : ResultDb :=
  { s with
    work := s.work.updateWhere (fun work => work.id = id) (.yield availableAt)
      (RetentionWork.yield_id availableAt) }

def completeWork (id : RetentionWorkId) (finishedAt : Timestamp) : ResultDb :=
  { s with
    work := s.work.updateWhere (fun work => work.id = id) (.complete finishedAt)
      (RetentionWork.complete_id finishedAt) }

def finishPass (id : RetentionWorkId) (owner : WorkerOwner) (finishedAt : Timestamp) :
    Except ResultError (ResultDb × RetentionPassOutcome) := do
  let work ← s.lockWork id owner finishedAt
  let searchReady := work.component ≠ .logs ∨ work.phase = .searchDeleted
  let remaining ← s.remainingObjects work
  if work.phase = .pending then .ok (s.yieldWork id none, .pending)
  else if searchReady ∧ ¬ remaining then .ok (s.completeWork id finishedAt, .completed)
  else .ok (s.yieldWork id (some finishedAt), .pending)

/-- Whether a failure was already recorded by this very request. -/
def isFailureReplay (request : FailRetentionWork) (work : RetentionWork) : Bool :=
  work.lastClaimOwner = some request.owner ∧
    work.lastFailure = some ⟨request.errorCode, request.failedAt, request.retryAt⟩ ∧
    (request.retryAt.isNone → work.phase = .deadLetter)

/-- `fail`, for an error code of the worker and a later retry time. -/
def fail (request : FailRetentionWork) : Except ResultError ResultDb :=
  match s.work.find? request.workId with
  | none => .error (.conflict .retentionWork)
  | some work =>
    let failure : WorkFailure := ⟨request.errorCode, request.failedAt, request.retryAt⟩
    if work.isClaimedBy request.owner request.failedAt then
      .ok { s with
            work := s.work.updateWhere (fun work => work.id = request.workId)
              (.recordFailure failure) (RetentionWork.recordFailure_id failure) }
    else if isFailureReplay request work then .ok s
    else .error (.conflict .retentionWork)

end ResultDb

end OctaCity.Retention
