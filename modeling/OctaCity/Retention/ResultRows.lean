/-
  OctaCity.Retention.ResultRows

  The rows of a Build Result (migrations 0001, 0028, 0029, 0032 to 0036): the
  Build with the visibility of its four components, its retention holds, its log
  chunks and outputs, the work that retains each component, the work that
  projects its logs into the search index, and staged log objects.

  Columns that no retention statement reads are left out.
-/
import OctaCity.Retention.FactoryRun
import OctaCity.Store.Rows

namespace OctaCity.Retention

open Domain Job Lib Store
open Factory (FactoryRunId FactoryDigest)

/-! ## Builds and their components -/

/-- Independently expiring component of one Build Result. -/
inductive BuildResultComponent
  | metadata
  | logs
  | artifacts
  | reports
  deriving DecidableEq

/-- The columns of `builds` that retention reads and writes. -/
structure BuildResultRow where
  id : BuildId
  projectId : ProjectId
  /-- The Run of `factory_origin`. -/
  factoryOrigin : Option FactoryRunId
  /-- `metadata_retention_until` and its three siblings. -/
  retentionUntil : BuildResultComponent → Timestamp
  visible : BuildResultComponent → Bool
  hiddenAt : BuildResultComponent → Option Timestamp

namespace BuildResultRow

/-- `hide_build_component`, and the statement that hides metadata. -/
def hide (component : BuildResultComponent) (observedAt : Timestamp) (row : BuildResultRow) :
    BuildResultRow :=
  { row with
    visible := fun other => other ≠ component ∧ row.visible other
    hiddenAt := fun other =>
      if other = component then (row.hiddenAt other).or (some observedAt) else row.hiddenAt other }

@[simp] theorem hide_id (component : BuildResultComponent) (observedAt : Timestamp)
    (row : BuildResultRow) : (row.hide component observedAt).id = row.id := rfl

/-- `BuildResultVisibility::complete`. -/
def isComplete (row : BuildResultRow) : Bool :=
  row.visible .metadata ∧ row.visible .logs ∧ row.visible .artifacts ∧ row.visible .reports

end BuildResultRow

/-! ## Holds -/

inductive RetentionHoldState
  | active
  | released
  | expired
  deriving DecidableEq

/-- One version of a hold; its reason and audit identities are left out. -/
structure HoldRow where
  version : Nat
  createdAt : Timestamp
  expiresAt : Option Timestamp
  expiredAt : Option Timestamp
  releasedAt : Option Timestamp

/-- `hold_state`. -/
def HoldRow.state (row : HoldRow) (observedAt : Timestamp) : RetentionHoldState :=
  if row.releasedAt.isSome then .released
  else if row.expiredAt.isSome ∨ ∃ expiry ∈ row.expiresAt, expiry ≤ observedAt then .expired
  else .active

/-- A hold is active until it is released or expires. -/
theorem HoldRow.state_eq_active {row : HoldRow} {observedAt : Timestamp} :
    row.state observedAt = .active ↔
      row.releasedAt = none ∧ row.expiredAt = none ∧ ∀ expiry ∈ row.expiresAt, observedAt < expiry := by
  unfold HoldRow.state
  cases hrelsd : row.releasedAt with
  | some released => simp
  | none =>
    cases hexpd : row.expiredAt with
    | some expired => simp
    | none =>
      cases hexps : row.expiresAt with
      | none => simp
      | some expiry => by_cases hlt : observedAt < expiry <;> simp_all

/-- `terminal_transition_millis`. -/
def HoldRow.terminalAt (row : HoldRow) : Option Timestamp := row.releasedAt.or row.expiredAt

/-- The hold versions of one Build, latest first. -/
structure HoldHistory where
  rows : List HoldRow
  descending : rows.Pairwise fun newer older => older.version < newer.version

namespace HoldHistory

def empty : HoldHistory := ⟨[], List.Pairwise.nil⟩

def latest (holds : HoldHistory) : Option HoldRow := holds.rows.head?

def nextVersion (holds : HoldHistory) : Nat :=
  match holds.latest with
  | none => 1
  | some hold => hold.version + 1

/-- The next version is above every version of the history. -/
theorem lt_nextVersion (holds : HoldHistory) : ∀ row ∈ holds.rows, row.version < holds.nextVersion := by
  obtain ⟨rows, hdescending⟩ := holds
  cases rows with
  | nil =>
    intro row hrow
    cases hrow
  | cons newest rest =>
    intro row hrow
    show row.version < newest.version + 1
    rcases List.mem_cons.mp hrow with rfl | hrow
    · omega
    · have hlt := (List.pairwise_cons.mp hdescending).1 row hrow
      omega

/-- A further version on top of a history. -/
def add (holds : HoldHistory) (row : HoldRow) : HoldHistory where
  rows := { row with version := holds.nextVersion } :: holds.rows
  descending := List.pairwise_cons.mpr ⟨holds.lt_nextVersion, holds.descending⟩

@[simp] theorem latest_add (holds : HoldHistory) (row : HoldRow) :
    (holds.add row).latest = some { row with version := holds.nextVersion } := rfl

/-- Whether the latest version holds the Build at an instant. -/
def isActive (holds : HoldHistory) (observedAt : Timestamp) : Bool :=
  holds.latest.any fun hold => hold.state observedAt = .active

/-- Only the latest version of a hold counts. -/
theorem isActive_iff {holds : HoldHistory} {observedAt : Timestamp} :
    holds.isActive observedAt = true ↔
      ∃ hold, holds.latest = some hold ∧ hold.state observedAt = .active := by
  unfold isActive
  cases holds.latest <;> simp

end HoldHistory

/-! ## Log chunks -/

structure ResultLogRow where
  manifest : LogChunkManifest
  buildId : BuildId
  attemptId : AttemptId
  jobId : JobId
  createdAt : Timestamp
  visible : Bool
  hiddenAt : Option Timestamp
  deletedAt : Option Timestamp

namespace ResultLogRow

def chunkId (row : ResultLogRow) : LogChunkId := row.manifest.chunkId

def hide (observedAt : Timestamp) (row : ResultLogRow) : ResultLogRow :=
  { row with
    visible := false
    hiddenAt := row.hiddenAt.or (some observedAt) }

@[simp] theorem hide_chunkId (observedAt : Timestamp) (row : ResultLogRow) :
    (row.hide observedAt).chunkId = row.chunkId := rfl

def delete (completedAt : Timestamp) (row : ResultLogRow) : ResultLogRow :=
  { row with deletedAt := some completedAt }

@[simp] theorem delete_chunkId (completedAt : Timestamp) (row : ResultLogRow) :
    (row.delete completedAt).chunkId = row.chunkId := rfl

end ResultLogRow

/-! ## Outputs -/

inductive ArtifactState
  | pending
  | verifying
  | published
  | expired
  | deleted
  deriving DecidableEq

inductive ArtifactEvent
  | beginVerification
  | verificationFailed
  | publish
  | expire
  | delete
  deriving DecidableEq

def ArtifactState.transition : ArtifactState → ArtifactEvent → Option ArtifactState
  | pending, .beginVerification => some verifying
  | pending, .delete | expired, .delete => some deleted
  | verifying, .verificationFailed => some pending
  | verifying, .publish => some published
  | published, .expire => some expired
  | _, _ => none

/-- `artifact_uploads_state`. -/
inductive ArtifactUploadState
  | pending
  | verifying
  | published
  | deleted
  deriving DecidableEq

/-- The text of an Artifact state in the column of an upload; the constraint on
    that column refuses an expired one. -/
def ArtifactState.uploadState : ArtifactState → Option ArtifactUploadState
  | pending => some .pending
  | verifying => some .verifying
  | published => some .published
  | deleted => some .deleted
  | expired => none

/-- An Artifact and its only upload. -/
structure OutputRow where
  id : ArtifactId
  buildId : BuildId
  isReport : Bool
  sizeBytes : Nat
  digest : String
  state : ArtifactState
  version : Nat
  deleteAfter : Option Timestamp
  createdAt : Timestamp
  publishedAt : Option Timestamp
  deletedAt : Option Timestamp
  uploadId : Nat
  uploadState : ArtifactUploadState
  uploadCompletedAt : Option Timestamp
  deriving DecidableEq

namespace OutputRow

/-- The component that `component_visible` is read from. -/
def component (row : OutputRow) : BuildResultComponent :=
  if row.isReport then .reports else .artifacts

/-- Whether the timestamps that must be set in the current state are set. -/
def timestampsMatchState (row : OutputRow) : Bool :=
  match row.state with
  | .pending | .verifying => row.publishedAt.isNone && row.deletedAt.isNone
  | .published | .expired => row.publishedAt.isSome && row.deletedAt.isNone
  | .deleted => row.deletedAt.isSome

/-- `ArtifactRecord::validate_shape`. -/
def hasValidShape (row : OutputRow) : Bool :=
  (∀ deadline ∈ row.deleteAfter, row.createdAt < deadline) ∧ row.timestampsMatchState ∧
    (∀ published ∈ row.publishedAt, row.createdAt ≤ published) ∧
    (∀ deleted ∈ row.deletedAt, row.createdAt ≤ deleted) ∧
    ∀ published ∈ row.publishedAt, ∀ deleted ∈ row.deletedAt, published ≤ deleted

/-- The record that an accepted event leaves. -/
def apply (row : OutputRow) (event : ArtifactEvent) (state : ArtifactState)
    (transitionedAt : Timestamp) : OutputRow :=
  { row with
    state
    version := row.version + 1
    publishedAt := if event = .publish then some transitionedAt else row.publishedAt
    deletedAt := if event = .delete then some transitionedAt else row.deletedAt }

/-- `ArtifactRecord::transition`, at the row's own identity and version. -/
def transition (row : OutputRow) (event : ArtifactEvent) (transitionedAt : Timestamp) :
    Option OutputRow :=
  if transitionedAt < row.createdAt ∨ ∃ published ∈ row.publishedAt, transitionedAt < published then
    none
  else if event = .expire ∧ ∀ deadline ∈ row.deleteAfter, transitionedAt < deadline then none
  else do
    let state ← row.state.transition event
    let updated := row.apply event state transitionedAt
    if updated.hasValidShape then some updated else none

/-- An accepted event moves the state and sets its timestamp. -/
theorem transition_eq_some {row row' : OutputRow} {event : ArtifactEvent}
    {transitionedAt : Timestamp} (h : row.transition event transitionedAt = some row') :
    row.state.transition event = some row'.state ∧
      row' = row.apply event row'.state transitionedAt := by
  unfold transition at h
  split at h
  · cases h
  · split at h
    · cases h
    · obtain ⟨state, hstate, h⟩ := Option.bind_eq_some_iff.mp h
      dsimp only at h
      split at h
      · cases h
        exact ⟨hstate, rfl⟩
      · cases h

/-- An output stays what it is, and is neither published nor deleted anew. -/
structure Keeps (row row' : OutputRow) : Prop where
  id : row'.id = row.id
  buildId : row'.buildId = row.buildId
  isReport : row'.isReport = row.isReport
  published : row'.state = .published → row.state = .published
  deleted : row'.state = .deleted → row.state = .deleted

theorem Keeps.refl (row : OutputRow) : row.Keeps row := ⟨rfl, rfl, rfl, fun h => h, fun h => h⟩

theorem Keeps.trans {row row' row'' : OutputRow} (h : row.Keeps row') (h' : row'.Keeps row'') :
    row.Keeps row'' :=
  ⟨h'.id.trans h.id, h'.buildId.trans h.buildId, h'.isReport.trans h.isReport,
    fun hstate => h.published (h'.published hstate), fun hstate => h.deleted (h'.deleted hstate)⟩

end OutputRow

/-! ## Durable work -/

inductive RetentionPhase
  | pending
  | hidden
  | searchDeleted
  | bytesDeleted
  | deadLetter
  deriving DecidableEq

structure RetentionWorkId where
  uuid : Nat
  deriving DecidableEq

instance : LinearOrder RetentionWorkId :=
  LinearOrder.lift' RetentionWorkId.uuid fun a b h => by
    cases a
    cases b
    simpa using h

/-- `last_error_code`, `last_failure_at` and `last_retry_at` of a work row. -/
structure WorkFailure where
  errorCode : String
  failedAt : Timestamp
  retryAt : Option Timestamp
  deriving DecidableEq

/-- A row of `retention_work` of a Build. -/
structure RetentionWork where
  id : RetentionWorkId
  projectId : ProjectId
  buildId : BuildId
  component : BuildResultComponent
  phase : RetentionPhase
  deadline : Timestamp
  availableAt : Timestamp
  attemptCount : Nat
  claim : Option WorkClaim
  /-- `search_work_id` and `search_position`. -/
  search : Option (LogIndexingWorkId × Nat)
  lastClaimOwner : Option WorkerOwner
  lastFailure : Option WorkFailure
  completedAt : Option Timestamp
  deriving DecidableEq

namespace RetentionWork

/-- Whether an owner's claim is alive at an instant. -/
def isClaimedBy (work : RetentionWork) (owner : WorkerOwner) (observedAt : Timestamp) : Bool :=
  ∃ claim ∈ work.claim, claim.owner = owner ∧ observedAt < claim.expiresAt

def acquire (claim : WorkClaim) (work : RetentionWork) : RetentionWork :=
  { work with
    claim := some claim
    attemptCount := work.attemptCount + 1 }

@[simp] theorem acquire_id (claim : WorkClaim) (work : RetentionWork) :
    (work.acquire claim).id = work.id := rfl

def enter (phase : RetentionPhase) (work : RetentionWork) : RetentionWork :=
  { work with phase }

@[simp] theorem enter_id (phase : RetentionPhase) (work : RetentionWork) :
    (work.enter phase).id = work.id := rfl

def allocate (searchWork : LogIndexingWorkId) (position : Nat) (work : RetentionWork) :
    RetentionWork :=
  { work with search := some (searchWork, position) }

@[simp] theorem allocate_id (searchWork : LogIndexingWorkId) (position : Nat)
    (work : RetentionWork) : (work.allocate searchWork position).id = work.id := rfl

/-- Gives the claim back, and with `availableAt` a new due time. -/
def yield (availableAt : Option Timestamp) (work : RetentionWork) : RetentionWork :=
  { work with
    availableAt := availableAt.getD work.availableAt
    claim := none }

@[simp] theorem yield_id (availableAt : Option Timestamp) (work : RetentionWork) :
    (work.yield availableAt).id = work.id := rfl

def complete (finishedAt : Timestamp) (work : RetentionWork) : RetentionWork :=
  { work with
    phase := .bytesDeleted
    completedAt := some finishedAt
    claim := none }

@[simp] theorem complete_id (finishedAt : Timestamp) (work : RetentionWork) :
    (work.complete finishedAt).id = work.id := rfl

/-- Records a failure; without a retry time the work is dead-lettered. -/
def recordFailure (failure : WorkFailure) (work : RetentionWork) : RetentionWork :=
  { work with
    availableAt := failure.retryAt.getD work.availableAt
    phase := if failure.retryAt.isNone then .deadLetter else work.phase
    completedAt := if failure.retryAt.isNone then some failure.failedAt else none
    lastClaimOwner := work.claim.map (·.owner)
    lastFailure := some failure
    claim := none }

@[simp] theorem recordFailure_id (failure : WorkFailure) (work : RetentionWork) :
    (work.recordFailure failure).id = work.id := rfl

end RetentionWork

inductive LogIndexOperation
  | index
  | rebuild
  | deleteBuild

inductive LogIndexState
  | pending
  | claimed
  | retryScheduled
  | completed
  | deadLetter

/-- A row of `log_indexing_work`. -/
structure LogIndexingWork where
  id : LogIndexingWorkId
  projectId : ProjectId
  position : Nat
  buildId : BuildId
  chunkId : Option LogChunkId
  operation : LogIndexOperation
  state : LogIndexState
  attemptCount : Nat
  availableAt : Timestamp
  claim : Option WorkClaim
  lastClaimOwner : Option WorkerOwner
  completedAt : Option Timestamp
  lastFailure : Option WorkFailure

namespace LogIndexingWork

/-- The statements of `complete_search`: completes the work whatever its state. -/
def settle (completedAt : Timestamp) (work : LogIndexingWork) : LogIndexingWork :=
  { work with
    state := .completed
    completedAt := some completedAt
    lastClaimOwner := (work.claim.map (·.owner)).or work.lastClaimOwner
    claim := none }

@[simp] theorem settle_id (completedAt : Timestamp) (work : LogIndexingWork) :
    (work.settle completedAt).id = work.id := rfl

/-- The first of these statements, which keeps an earlier completion time. -/
def supersede (completedAt : Timestamp) (work : LogIndexingWork) : LogIndexingWork :=
  { work.settle completedAt with completedAt := work.completedAt.or (some completedAt) }

@[simp] theorem supersede_id (completedAt : Timestamp) (work : LogIndexingWork) :
    (work.supersede completedAt).id = work.id := rfl

end LogIndexingWork

inductive OrphanState
  | pending
  | claimed
  | retryScheduled
  | completed
  | deadLetter

/-- A row of `orphan_log_chunk_work`. -/
structure OrphanLogChunk where
  manifest : LogChunkManifest
  jobId : JobId
  state : OrphanState
  attemptCount : Nat
  availableAt : Timestamp
  claim : Option WorkClaim
  lastClaimOwner : Option WorkerOwner
  lastFailure : Option WorkFailure
  completedAt : Option Timestamp

def OrphanLogChunk.chunkId (row : OrphanLogChunk) : LogChunkId := row.manifest.chunkId

/-- The identities that are version 5 UUIDs of a Build and a name. -/
structure DerivedIds where
  /-- The deletion work of a Build's logs. -/
  searchWork : BuildId → LogIndexingWorkId
  retentionWork : BuildId → BuildResultComponent → RetentionWorkId

/-! ## Errors and tables -/

inductive ResultEntity
  | artifact
  | artifactUpload
  | build
  | logChunk
  | logIndexingWork
  | retentionHold
  | retentionWork

/-- Failures of a Build Result transaction, which is rolled back. -/
inductive ResultError
  | notFound (entity : ResultEntity)
  | conflict (entity : ResultEntity)
  | duplicate (entity : ResultEntity)
  | fenced
  | invalidInput
  | preconditionFailed
  | unavailable

/-- The tables that the transactions on Build Results read and write. -/
structure ResultDb where
  builds : Table BuildResultRow.id
  holds : BuildId → HoldHistory
  chunks : Table ResultLogRow.chunkId
  outputs : Table OutputRow.id
  work : Table RetentionWork.id
  indexing : Table LogIndexingWork.id
  /-- `log_index_project_positions`; a Project without a row is at zero. -/
  committedThrough : ProjectId → Nat
  orphans : Table OrphanLogChunk.chunkId
  factory : FactoryDb
  /-- `build_id` of the Build executions of Factory nodes. -/
  executionBuild : FactoryDigest → BuildId
  /-- `expected_sha256` of the artifact references. -/
  expectedDigest : FactoryRow → Option String
  /-- Whether cleanup of the project text behind a Build has started. -/
  textCleanupStarted : BuildId → Bool

end OctaCity.Retention
