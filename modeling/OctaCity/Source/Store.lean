/-
  OctaCity.Source.Store

  The source tables of one store (`factory_source.rs` and
  `factory_source_artifact.rs` of the Postgres store, the guarded half of
  `factory_admission.rs`) and the calls that change them.  Every call is one
  transaction under the lock of its Project: it commits as a whole or changes
  nothing.

  What a call reads from other tables (connections, Issues, Factory
  Configurations) is given with it.
-/
import OctaCity.Source.Preparations

namespace OctaCity.Source

open Domain Lib
open Factory (FactoryDigest FactoryKey)

/-! ## Admissions -/

/-- The identity under which a Work is admitted once. -/
structure FactoryAdmissionIdentity where
  projectId : Nat
  installation : FactoryKey
  securityScope : FactoryKey
  externalIdentity : FactoryDigest
  deriving DecidableEq

/-- An admitted Work; its intent stands for `intent_digest`. -/
structure AdmittedWork where
  identity : FactoryAdmissionIdentity
  intent : FactoryWorkAdmissionIntent
  receipt : WorkSourceCorrelation

structure AdmitPreparedWorkSource where
  claim : WorkSourceScanClaim
  preparationId : FactoryDigest
  now : Timestamp

/-- A request to admit a prepared Work. -/
structure AdmitFactoryWork where
  /-- The probe: its identity and what its digest is taken over. -/
  identity : FactoryAdmissionIdentity
  intent : FactoryWorkAdmissionIntent
  artifacts : FactoryDigest
  receipt : WorkSourceCorrelation
  /-- Whether the Work repeats the rest of the retained intent. -/
  repeatsIntent : Bool

/-- What an admission reads from the other tables. -/
structure AdmissionChecks where
  /-- The Configuration, its access profile, its limits and the repository. -/
  isAdmissible : Bool
  /-- The artifacts that a materialization names (`work_artifacts`). -/
  artifacts : SourceMaterialization → Option FactoryDigest
  /-- The Issue revision of an accepted predecessor. -/
  predecessor : Option WorkSourceIssueRevision

/-! ## The store -/

structure SourceStore where
  tables : SourceTables
  scans : Table WorkSourceScan.identity
  preparations : Table WorkSourcePreparation.id
  materializations : Table SourceMaterialization.preparationId
  /-- `factory_source_input_objects`. -/
  objects : List SourceArtifactObject
  works : List AdmittedWork

/-- Which preparations a reader asks for. -/
inductive PendingView
  | all (after : Option FactoryDigest)
  | recovery (now : Timestamp)
  | blocking

def PendingView.admits (view : PendingView) (preparation : WorkSourcePreparation) : Bool :=
  match view with
  | .all after => after.all (· < preparation.id)
  | .recovery now =>
    preparation.waiting.all fun wait => wait.checkedAt < now ∧ now < preparation.snapshotExpiresAt
  | .blocking => preparation.waiting.isNone

/-- The order of a page: untouched preparations first, then the oldest waits. -/
def PendingView.isBefore (view : PendingView) (a b : WorkSourcePreparation) : Bool :=
  match view, a.waiting, b.waiting with
  | .recovery _, some _, none => false
  | .recovery _, some wait, some other =>
    wait.checkedAt < other.checkedAt ∨ (wait.checkedAt = other.checkedAt ∧ a.id ≤ b.id)
  | .recovery _, none, some _ => true
  | _, _, _ => a.id ≤ b.id

namespace SourceStore

variable (digests : SourceDigests) (store : SourceStore)

def empty (projects : List Nat) : SourceStore :=
  ⟨⟨projects, [], []⟩, .empty, .empty, .empty, [], []⟩

def loadScan (target : WorkSourceScanTarget) : Option WorkSourceScan :=
  store.scans.find? (toLex target.identity)

def lockProject (project : Nat) : Except SourceError Unit :=
  if project ∉ store.tables.projects then .error .conflict else .ok ()

def lockClaim (claim : WorkSourceScanClaim) (now : Timestamp) : Except SourceError WorkSourceScan := do
  store.lockProject claim.projectId
  store.tables.requireCurrent claim.projectId claim.target
  let scan ← okOr (store.loadScan claim.target) .conflict
  requireSourceScan scan claim now
  .ok scan

def selectedInput (claim : WorkSourceScanClaim) (input : Nat) : Except SourceError WorkSourceInput := do
  let members ← store.tables.scanMembers claim.projectId claim.target
  okOr (members.find? (·.id = input)) .conflict

def loadPreparation (project : Nat) (id : FactoryDigest) : Except SourceError WorkSourcePreparation :=
  okOr ((store.preparations.find? id).filter (·.input.projectId = project)) .conflict

/-- `owner`: the preparation that the live claim may resume. -/
def owner (claim : WorkSourceScanClaim) (id : FactoryDigest) (now : Timestamp) :
    Except SourceError (WorkSourceScan × WorkSourcePreparation) := do
  let scan ← store.lockClaim claim now
  let preparation ← store.loadPreparation claim.projectId id
  let selected ← store.selectedInput claim preparation.input.id
  preparation.requireSelectedOwner claim selected
  .ok (scan, preparation)

/-- The materialization of a preparation in a Project. -/
def loadMaterialization (project : Nat) (id : FactoryDigest) : Option SourceMaterialization :=
  (store.materializations.find? id).filter (·.projectId = project)

def saveScan (scan : WorkSourceScan) : SourceStore :=
  { store with scans := store.scans.put scan }

def savePreparation (preparation : WorkSourcePreparation) : SourceStore :=
  { store with preparations := store.preparations.put preparation }

def saveMaterialization (manifest : SourceMaterialization) : SourceStore :=
  { store with materializations := store.materializations.put manifest }

/-- What a page of pending preparations is selected by. -/
def isPending (project : Nat) (members : List WorkSourceInput)
    (preparation : WorkSourcePreparation) : Bool :=
  preparation.input.projectId = project ∧ preparation.admission.isNone ∧
    preparation.snapshot ≠ [] ∧
    (∃ member ∈ members, member.definition.enabled ∧ member.id = preparation.input.id ∧
      preparation.input.definition.source.installation.identity =
        member.definition.source.installation.identity ∧
      preparation.input.definition.source.resource = member.definition.source.resource) ∧
    ¬ (store.materializations.find? preparation.id).any fun manifest =>
      manifest.rejection.isSome ∨ manifest.cleanedAt.isSome

def pendingPreparations (project : Nat) (target : WorkSourceScanTarget) (limit : Nat)
    (view : PendingView) : Except SourceError (List WorkSourcePreparation) := do
  let members ← store.tables.scanMembers project target
  .ok (((store.preparations.rows.filter fun preparation =>
      store.isPending project members preparation ∧ view.admits preparation).mergeSort
    view.isBefore).take limit)

/-! ## Scans -/

/-- `publish_work_sources`. -/
def publish (request : PublishWorkSources) (checks : PublicationChecks) :
    Except SourceError SourceStore := do
  let tables ← store.tables.publish request checks
  .ok { store with tables }

/-- `claim_source_scan`. -/
def claimScan (request : ClaimWorkSourceScan) :
    Except SourceError (SourceStore × Option WorkSourceScan) := do
  store.lockProject request.projectId
  store.tables.requireCurrent request.projectId request.target
  let next ← nextSourceScan request (store.loadScan request.target)
  .ok (next.elim store store.saveScan, next)

/-- `checkpoint_source_scan`. -/
def checkpoint (claim : WorkSourceScanClaim) (now : Timestamp)
    (expected : Option WorkSourceProgress) (progress : WorkSourceProgress) :
    Except SourceError SourceStore := do
  if ¬ progress.isValid then .error .conflict
  else do
    let scan ← store.lockClaim claim now
    let blocking ← store.pendingPreparations claim.projectId claim.target 1 .blocking
    if blocking ≠ [] ∨ scan.progress ≠ expected then .error .conflict
    else .ok (store.saveScan { scan with progress := some progress })

/-- `select_source_input`. -/
def select (claim : WorkSourceScanClaim) (now : Timestamp) (item : WorkSourceItem)
    (matched : List Nat) : Except SourceError SourceStore := do
  let scan ← store.lockClaim claim now
  let members ← store.tables.scanMembers claim.projectId claim.target
  let scan ← recordSourceSelection scan claim now members item matched
  .ok (store.saveScan scan)

/-- `finish_source_scan`. -/
def finish (claim : WorkSourceScanClaim) (now : Timestamp) (schedule : WorkSourceSchedule) :
    Except SourceError SourceStore := do
  let scan ← store.lockClaim claim now
  .ok (store.saveScan
    { scan with schedule := some schedule, claim := { scan.claim with deadline := now } })

/-- One row of `expire_source_poll_pages`. -/
def expirePage (target : WorkSourceScanTarget) (now : Timestamp) : SourceStore :=
  match store.loadScan target with
  | none => store
  | some scan =>
    if (scan.progress.bind (·.pendingPage)).any (·.expiresAt ≤ now) then
      store.saveScan { scan with progress := none }
    else store

/-! ## Preparations -/

/-- The private digest of the observed text and the Issue revision that matches it. -/
structure Lineage where
  observed : FactoryDigest
  revision : Option WorkSourceIssueRevision

def Lineage.attach (lineage : Option Lineage) (preparation : WorkSourcePreparation) :
    WorkSourcePreparation :=
  match lineage with
  | none => preparation
  | some lineage =>
    { preparation with
      observedIssueText := some lineage.observed, issueRevision := lineage.revision }

/-- `reserve_preparation`; an earlier reservation of the same identity stays. -/
def reserve (request : ReserveWorkSourcePreparation) (lineage : Option Lineage)
    (initialPolicy : Option (List UInt8)) :
    Except SourceError (SourceStore × WorkSourcePreparation) := do
  if ¬ isBounded request.snapshot then .error .conflict
  else do
    let _ ← store.lockClaim request.claim request.now
    let input ← store.selectedInput request.claim request.inputId
    let fresh ← request.freeze digests input initialPolicy
    let store :=
      if store.preparations.contains fresh.id then store
      else store.savePreparation (Lineage.attach lineage fresh)
    let retained ← store.loadPreparation input.projectId fresh.id
    .ok (store, retained)

/-- `defer_source_preparation`. -/
def defer (request : DeferSourcePreparation) : Except SourceError SourceStore := do
  let (scan, preparation) ← store.owner request.claim request.preparationId request.now
  let (preparation, wait) ← preparation.recordWait request
  .ok ((store.savePreparation preparation).saveScan { scan with lastWait := some wait })

/-- `freeze_source_preparation_policy`. -/
def freezePolicy (request : FreezeSourcePreparationPolicy) : Except SourceError SourceStore := do
  let (_, preparation) ← store.owner request.claim request.preparationId request.now
  let preparation ← request.retain digests preparation
    (store.loadMaterialization request.claim.projectId request.preparationId)
  .ok (store.savePreparation preparation)

/-- `publish_source_preparation_intent`. -/
def publishIntent (request : PublishSourcePreparationIntent) : Except SourceError SourceStore := do
  let (_, preparation) ← store.owner request.claim request.preparationId request.now
  let preparation ← preparation.withIntent digests request
  .ok (store.savePreparation preparation)

/-- Registers the objects of a new reservation under identities of their own. -/
def registerObjects (objects : List SourceArtifactObject) : Except SourceError SourceStore :=
  if ∃ object ∈ objects, ∃ other ∈ store.objects,
      other.artifactId = object.artifactId ∨ other.uploadId = object.uploadId then
    .error .conflict
  else .ok { store with objects := store.objects ++ objects }

/-- `reserve_source_artifacts`. -/
def reserveArtifacts (request : ReserveSourceArtifacts) : Except SourceError SourceStore := do
  if ¬ request.isValid then .error .conflict
  else do
    let (_, preparation) ← store.owner request.claim request.preparationId request.now
    let current := store.loadMaterialization request.claim.projectId request.preparationId
    let manifest ← request.retain preparation current
    let saved := store.saveMaterialization manifest
    if current.isNone then saved.registerObjects manifest.objects else .ok saved

/-- `publish_source_artifacts`. -/
def publishArtifacts (request : PublishSourceArtifacts) : Except SourceError SourceStore := do
  let _ ← store.owner request.claim request.preparationId request.now
  let manifest ← okOr (store.loadMaterialization request.claim.projectId request.preparationId)
    .conflict
  let manifest ← manifest.publish request
  .ok (store.saveMaterialization manifest)

/-- `reject_source_preparation`. -/
def reject (request : RejectSourcePreparation) : Except SourceError SourceStore := do
  let (_, preparation) ← store.owner request.claim request.preparationId request.now
  let manifest ← request.retain preparation
    (store.loadMaterialization request.claim.projectId request.preparationId)
  .ok (store.saveMaterialization manifest)

/-- The manifest that a completed cleanup leaves. -/
def cleanedManifest (manifest : SourceMaterialization) (now recheckAt : Timestamp) :
    SourceMaterialization :=
  { manifest with
    cleanedAt := some (manifest.cleanedAt.getD now)
    nextCleanupAt := if manifest.objects = [] then none else some recheckAt }

/-- `complete_source_preparation_cleanup`. -/
def completeCleanup (expected : SourcePreparationCleanup) (now recheckAt : Timestamp) :
    Except SourceError SourceStore := do
  store.lockProject expected.projectId
  let preparation ← store.loadPreparation expected.projectId expected.preparationId
  let manifest := store.loadMaterialization expected.projectId expected.preparationId
  let current := SourcePreparationCleanup.fromPreparation preparation manifest
  let isRequired ← expected.requiresAcknowledgement current now recheckAt
  if ¬ isRequired ∨ (preparation.snapshot = [] ∧ current.objects = []) then .ok store
  else
    let saved := manifest.elim store fun manifest =>
      store.saveMaterialization (cleanedManifest manifest now recheckAt)
    .ok (if preparation.snapshot = [] then saved else saved.savePreparation preparation.cleared)

/-! ## Admission -/

def validateAdmission (preparation : WorkSourcePreparation) (guard : AdmitPreparedWorkSource)
    (request : AdmitFactoryWork) : Except SourceError Unit := do
  let intent ← okOr preparation.intent .conflict
  if preparation.id ≠ guard.preparationId ∨
      preparation.input.projectId ≠ guard.claim.projectId ∨
      request.identity ≠
        { projectId := preparation.input.projectId
          installation := preparation.input.definition.source.installation.identity
          securityScope := request.identity.securityScope
          externalIdentity := preparation.admissionIdentity digests } ∨
      request.intent ≠ intent ∨ request.artifacts ≠ intent.artifacts ∨
      ¬ request.repeatsIntent then
    .error .conflict
  else .ok ()

def lockPreparation (guard : AdmitPreparedWorkSource) (request : AdmitFactoryWork) :
    Except SourceError WorkSourcePreparation := do
  let (_, preparation) ← store.owner guard.claim guard.preparationId guard.now
  validateAdmission digests preparation guard request
  .ok preparation

def requireAdmissionInputs (preparation : WorkSourcePreparation) (request : AdmitFactoryWork)
    (checks : AdmissionChecks) (now : Timestamp) : Except SourceError Unit :=
  match store.loadMaterialization preparation.input.projectId preparation.id with
  | none => .ok ()
  | some manifest =>
    if manifest.publishedAt.isNone ∨ manifest.rejection.isSome ∨ manifest.cleanedAt.isSome ∨
        now < manifest.reservedAt ∨ manifest.expiresAt ≤ now ∨
        checks.artifacts manifest ≠ some request.artifacts then
      .error .conflict
    else .ok ()

/-- `admit_prepared`: a Work of the same identity is the authority, else a new one is admitted. -/
def admitPrepared (guard : AdmitPreparedWorkSource) (request : AdmitFactoryWork)
    (checks : AdmissionChecks) : Except SourceError (SourceStore × WorkSourceCorrelation) := do
  let preparation ← store.lockPreparation digests guard request
  match store.works.find? (·.identity = request.identity) with
  | some work =>
    if work.intent ≠ request.intent then .error .conflict
    else .ok (store.savePreparation (preparation.correlate work.receipt), work.receipt)
  | none => do
    store.requireAdmissionInputs preparation request checks guard.now
    if ¬ checks.isAdmissible ∨ ∃ work ∈ store.works,
        work.receipt.workId = request.receipt.workId ∨
          work.receipt.runId = request.receipt.runId then
      .error .conflict
    else
      let preparation := { preparation with
        issueRevision := preparation.issueRevision <|> checks.predecessor }
      .ok ({ store.savePreparation (preparation.correlate request.receipt) with
             works := store.works ++ [⟨request.identity, request.intent, request.receipt⟩] },
           request.receipt)

end SourceStore

/-! ## Runs -/

/-- One committed or refused call of any worker. -/
inductive SourceEvent
  | publish (request : PublishWorkSources) (checks : PublicationChecks)
  | claim (request : ClaimWorkSourceScan)
  | checkpoint (claim : WorkSourceScanClaim) (now : Timestamp)
      (expected : Option WorkSourceProgress) (progress : WorkSourceProgress)
  | select (claim : WorkSourceScanClaim) (now : Timestamp) (item : WorkSourceItem)
      (matched : List Nat)
  | finish (claim : WorkSourceScanClaim) (now : Timestamp) (schedule : WorkSourceSchedule)
  | expirePage (target : WorkSourceScanTarget) (now : Timestamp)
  | reserve (request : ReserveWorkSourcePreparation) (lineage : Option SourceStore.Lineage)
      (initialPolicy : Option (List UInt8))
  | defer (request : DeferSourcePreparation)
  | freezePolicy (request : FreezeSourcePreparationPolicy)
  | publishIntent (request : PublishSourcePreparationIntent)
  | reserveArtifacts (request : ReserveSourceArtifacts)
  | publishArtifacts (request : PublishSourceArtifacts)
  | reject (request : RejectSourcePreparation)
  | completeCleanup (expected : SourcePreparationCleanup) (now recheckAt : Timestamp)
  | admitPrepared (guard : AdmitPreparedWorkSource) (request : AdmitFactoryWork)
      (checks : AdmissionChecks)

namespace SourceStore

variable (digests : SourceDigests) (store : SourceStore)

/-- The store after a call, or the reason why it changed nothing. -/
def apply : SourceEvent → Except SourceError SourceStore
  | .publish request checks => store.publish request checks
  | .claim request => (store.claimScan request).map (·.1)
  | .checkpoint claim now expected progress => store.checkpoint claim now expected progress
  | .select claim now item matched => store.select claim now item matched
  | .finish claim now schedule => store.finish claim now schedule
  | .expirePage target now => .ok (store.expirePage target now)
  | .reserve request lineage initialPolicy =>
    (store.reserve digests request lineage initialPolicy).map (·.1)
  | .defer request => store.defer request
  | .freezePolicy request => store.freezePolicy digests request
  | .publishIntent request => store.publishIntent digests request
  | .reserveArtifacts request => store.reserveArtifacts request
  | .publishArtifacts request => store.publishArtifacts request
  | .reject request => store.reject request
  | .completeCleanup expected now recheckAt => store.completeCleanup expected now recheckAt
  | .admitPrepared guard request checks => (store.admitPrepared digests guard request checks).map (·.1)

def step (event : SourceEvent) : SourceStore := (store.apply digests event).toOption.getD store

def run (events : List SourceEvent) : SourceStore := events.foldl (step digests) store

end SourceStore

end OctaCity.Source
