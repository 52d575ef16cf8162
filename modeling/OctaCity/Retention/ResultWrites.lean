/-
  OctaCity.Retention.ResultWrites

  The other transactions on Build Results: holds (`retention_hold.rs`), outputs
  (`artifact.rs`), archived log chunks (`job_events.rs`), new Builds, and the
  links and references of Factory Runs.

  A replayed hold request changes nothing and is left out. The checks of the Agent
  lease, which come first, are given by their outcome.
-/
import OctaCity.Retention.ResultStore

namespace OctaCity.Retention

open Domain Job Lib Store
open Factory (FactoryRunId NodeAttemptId FactoryDigest)

/-! ## Holds -/

structure PlaceBuildResultHold where
  buildId : BuildId
  expiresAt : Option Timestamp
  placedAt : Timestamp

structure ReleaseBuildResultHold where
  buildId : BuildId
  expectedVersion : Nat
  releasedAt : Timestamp

namespace ResultDb

variable (s : ResultDb)

/-- `factory_retention::started_for_build`: whether the Run that created a Build
    is hidden or gone. -/
def isRunCleanupStarted (build : BuildResultRow) : Bool :=
  build.factoryOrigin.any fun run => ¬ (s.factory.runs.find? run).any (·.visible)

/-- `place`. -/
def placeHold (request : PlaceBuildResultHold) : Except ResultError ResultDb :=
  if ∃ expiry ∈ request.expiresAt, expiry ≤ request.placedAt then .error .invalidInput
  else do
    let build ← okOr (s.builds.find? request.buildId) (.notFound .build)
    let latest := (s.holds request.buildId).latest
    if s.textCleanupStarted request.buildId ∨ s.isRunCleanupStarted build then
      .error (.conflict .retentionHold)
    else if ¬ build.isComplete then .error (.conflict .retentionHold)
    else if ∃ hold ∈ latest, hold.state request.placedAt = .active then
      .error (.conflict .retentionHold)
    else if ∃ terminalAt ∈ latest.bind (·.terminalAt), request.placedAt < terminalAt then
      .error (.conflict .retentionHold)
    else
      s.addHold request.buildId
        { version := 0
          createdAt := request.placedAt
          expiresAt := request.expiresAt
          expiredAt := none
          releasedAt := none }

/-- `release`. -/
def releaseHold (request : ReleaseBuildResultHold) : Except ResultError ResultDb := do
  let _ ← okOr (s.builds.find? request.buildId) (.notFound .build)
  let latest ← okOr (s.holds request.buildId).latest (.notFound .retentionHold)
  if latest.version ≠ request.expectedVersion then .error .preconditionFailed
  else if request.releasedAt < latest.createdAt ∨ latest.state request.releasedAt ≠ .active then
    .error (.conflict .retentionHold)
  else s.addHold request.buildId { latest with releasedAt := some request.releasedAt }

end ResultDb

/-! ## Outputs -/

inductive ArtifactVerificationResult
  | verified
  | rejected

structure BeginArtifactUpload where
  /-- The checks of the lease, of the template and of the output limits. -/
  access : Except ResultError Unit
  artifactId : ArtifactId
  uploadId : Nat
  buildId : BuildId
  isReport : Bool
  sizeBytes : Nat
  digest : String
  reservedAt : Timestamp

structure VerifyArtifactUpload where
  access : Except ResultError Unit
  uploadId : Nat
  observedAt : Timestamp

namespace ResultDb

variable (s : ResultDb)

def artifactRetentionDeadline (build : BuildId) (isReport : Bool) (reservedAt : Timestamp) :
    Except ResultError Timestamp := do
  let row ← okOr (s.builds.find? build) (.notFound .build)
  let component := if isReport then .reports else .artifacts
  let deadline := row.retentionUntil component
  if ¬ row.visible component ∨ deadline ≤ reservedAt then .error (.conflict .build)
  else .ok deadline

/-- `begin_upload`, for a fresh request. -/
def beginUpload (request : BeginArtifactUpload) : Except ResultError ResultDb := do
  request.access
  let deadline ← s.artifactRetentionDeadline request.buildId request.isReport request.reservedAt
  let row : OutputRow :=
    { id := request.artifactId
      buildId := request.buildId
      isReport := request.isReport
      sizeBytes := request.sizeBytes
      digest := request.digest
      state := .pending
      version := 1
      deleteAfter := some deadline
      createdAt := request.reservedAt
      publishedAt := none
      deletedAt := none
      uploadId := request.uploadId
      uploadState := .pending
      uploadCompletedAt := none }
  if s.outputs.rows.any fun other => other.uploadId = row.uploadId then
    .error (.duplicate .artifactUpload)
  else do
    let outputs ← okOr (s.outputs.insert? row) (.duplicate .artifact)
    .ok { s with outputs }

/-- The event of `change_verification`; `none` repeats an earlier call. -/
def verificationEvent : Option ArtifactVerificationResult → ArtifactState →
    Except ResultError (Option ArtifactEvent)
  | none, .pending => .ok (some .beginVerification)
  | none, .verifying | none, .published => .ok none
  | some .verified, .verifying => .ok (some .publish)
  | some .verified, .published => .ok none
  | some .rejected, .verifying => .ok (some .verificationFailed)
  | some .rejected, .pending => .ok none
  | _, _ => .error (.conflict .artifactUpload)

def changeVerification (request : VerifyArtifactUpload)
    (result : Option ArtifactVerificationResult) : Except ResultError ResultDb := do
  request.access
  let row ← okOr (s.outputs.rows.find? fun row => row.uploadId = request.uploadId)
    (.notFound .artifactUpload)
  if ¬ s.isVisible row.buildId row.component then .error (.conflict .artifact)
  else do
    match ← verificationEvent result row.state with
    | none => .ok s
    | some event =>
      let row ← okOr (row.transition event request.observedAt) (.conflict .artifactUpload)
      s.updateArtifactAndUpload row event

end ResultDb

/-! ## Log chunks -/

/-- The Job whose output a batch of events archives. -/
structure LogOrigin where
  projectId : ProjectId
  buildId : BuildId
  attemptId : AttemptId
  jobId : JobId

namespace ResultDb

variable (s : ResultDb)

/-- The indexing work of a chunk at a position of its Project. -/
def chunkWork (origin : LogOrigin) (acceptedAt : Timestamp) (chunk : LogChunkManifest)
    (position : Nat) : LogIndexingWork where
  id := chunk.indexingWorkId
  projectId := origin.projectId
  position
  buildId := origin.buildId
  chunkId := some chunk.chunkId
  operation := .index
  state := .pending
  attemptCount := 0
  availableAt := acceptedAt
  claim := none
  lastClaimOwner := none
  completedAt := none
  lastFailure := none

/-- The row of an archived chunk. -/
def chunkRow (origin : LogOrigin) (acceptedAt : Timestamp) (chunk : LogChunkManifest) :
    ResultLogRow where
  manifest := chunk
  buildId := origin.buildId
  attemptId := origin.attemptId
  jobId := origin.jobId
  createdAt := acceptedAt
  visible := true
  hiddenAt := none
  deletedAt := none

/-- Advances a Project to a position. -/
def commitThrough (project : ProjectId) (position : Nat) : ResultDb :=
  { s with
    committedThrough := fun other =>
      if other = project then position else s.committedThrough other }

/-- Forgets a staged object whose chunk is committed. -/
def unstage (chunk : LogChunkId) : ResultDb :=
  { s with orphans := s.orphans.deleteWhere fun row => row.chunkId = chunk }

/-- One chunk of `persist_log_chunks`. -/
def insertLogChunk (origin : LogOrigin) (acceptedAt : Timestamp) (s : ResultDb)
    (chunk : LogChunkManifest) : Except ResultError ResultDb :=
  let position := s.committedThrough origin.projectId + 1
  if ¬ position < 2 ^ 63 then .error .unavailable
  else if ¬ (chunk.firstSequence < 2 ^ 63 ∧ chunk.lastSequence < 2 ^ 63 ∧
      chunk.byteLength < 2 ^ 63) then
    .error .invalidInput
  else do
    let chunks ← okOr (s.chunks.insert? (chunkRow origin acceptedAt chunk)) (.duplicate .logChunk)
    let s ← { s with chunks }.insertIndexing (chunkWork origin acceptedAt chunk position)
    .ok ((s.unstage chunk.chunkId).commitThrough origin.projectId position)

/-- `persist_log_chunks`, in an append whose other checks have the given outcome. -/
def persistLogChunks (access : Except ResultError Unit) (origin : LogOrigin) (acceptedAt : Timestamp)
    (chunks : List LogChunkManifest) : Except ResultError ResultDb := do
  access
  if chunks.isEmpty then .ok s
  else do
    let build ← okOr (s.builds.find? origin.buildId) (.notFound .build)
    if ¬ build.visible .logs then .error (.conflict .build)
    else chunks.foldlM (insertLogChunk origin acceptedAt) s

end ResultDb

/-! ## Builds and Factory Runs -/

structure NewBuild where
  id : BuildId
  projectId : ProjectId
  factoryOrigin : Option FactoryRunId
  retentionUntil : BuildResultComponent → Timestamp

namespace ResultDb

variable (ids : DerivedIds) (s : ResultDb)

/-- One row of `insert_retention_work`. -/
def newRetentionWork (build : NewBuild) (component : BuildResultComponent) : RetentionWork where
  id := ids.retentionWork build.id component
  projectId := build.projectId
  buildId := build.id
  component
  phase := .pending
  deadline := build.retentionUntil component
  availableAt := build.retentionUntil component
  attemptCount := 0
  claim := none
  search := none
  lastClaimOwner := none
  lastFailure := none
  completedAt := none

/-- The columns of an inserted Build, and `insert_retention_work`. -/
def insertBuild (build : NewBuild) : Except ResultError ResultDb := do
  let builds ← okOr
    (s.builds.insert?
      { id := build.id
        projectId := build.projectId
        factoryOrigin := build.factoryOrigin
        retentionUntil := build.retentionUntil
        visible := fun _ => true
        hiddenAt := fun _ => none })
    (.duplicate .build)
  let work ← s.work.insertAll (fun _ => ResultError.duplicate .retentionWork)
    ([.metadata, .logs, .artifacts, .reports].map (newRetentionWork ids build))
  .ok { s with builds, work }

/-- Records the Build that a Factory node executes. -/
def linkExecution (run : FactoryRunId) (id : FactoryDigest) (nodeAttempt : NodeAttemptId)
    (operation : FactoryDigest) (build : BuildId) : ResultDb :=
  { s with
    factory :=
      { s.factory with
        rows := s.factory.rows ++ [.flowBuildExecution run id nodeAttempt operation] }
    executionBuild := fun other => if other = id then build else s.executionBuild other }

/-- `insert_artifact_reference`; an existing reference is left as it is. -/
def referenceArtifact (run : FactoryRunId) (artifact : ArtifactId) (role : FactoryArtifactRole)
    (expected : Option String) : ResultDb :=
  let row : FactoryRow := .artifactReference run artifact role
  if row ∈ s.factory.rows then s
  else
    { s with
      factory :=
        { s.factory with
          rows := s.factory.rows ++ [row]
          releasedAt := fun other => if other = row then none else s.factory.releasedAt other }
      expectedDigest := fun other => if other = row then expected else s.expectedDigest other }

/-- Whether a hold of a Build of a Run is active. -/
def isHeld (run : FactoryRunId) (observedAt : Timestamp) : Bool :=
  s.builds.rows.any fun build => s.isLinked run build.id ∧ (s.holds build.id).isActive observedAt

/-- `factory_retention::advance` over the linked Builds. -/
def advanceFactory (request : AdvanceFactoryRetentionWork) :
    Except FactoryRetentionError (ResultDb × FactoryRetentionPassOutcome) := do
  let (factory, outcome) ← s.factory.advance s.isHeld request
  .ok ({ s with factory }, outcome)

end ResultDb

end OctaCity.Retention
