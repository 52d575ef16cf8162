/-
  OctaCity.Source.Preparations

  The retained preparation of one ticket for one input and its private
  materialization (`factory_source.rs` and `factory_source_artifact.rs` of the
  store crate): what each transition requires of the retained record and what it
  leaves of it.
-/
import Mathlib.Logic.Equiv.List
import OctaCity.Source.Scans

namespace OctaCity.Source

open Domain Lib
open Factory (FactoryDigest FactoryKey)

/-! ## Preparations -/

/-- The command that a preparation freezes; `settings` is what is only compared. -/
structure FactoryWorkAdmissionIntent where
  projectId : Nat
  configuration : VersionedRef
  repository : Option VersionedRef
  externalIdentity : FactoryDigest
  artifacts : FactoryDigest
  settings : FactoryDigest
  deriving DecidableEq

structure WorkSourceCorrelation where
  workId : Nat
  runId : Nat
  deriving DecidableEq

structure WorkSourceIssueRevision where
  correlation : FactoryDigest
  issueId : Nat
  version : Nat

structure WorkSourcePreparation where
  id : FactoryDigest
  issue : FactoryDigest
  issueRevision : Option WorkSourceIssueRevision
  observedIssueText : Option FactoryDigest
  input : WorkSourceInput
  item : WorkSourceItem
  target : WorkSourceScanTarget
  reservedAt : Timestamp
  snapshotExpiresAt : Timestamp
  snapshot : List UInt8
  policy : Option (List UInt8)
  intent : Option FactoryWorkAdmissionIntent
  waiting : Option WorkSourceWait
  initialPolicy : Option (List UInt8)
  predecessorCursor : Option FactoryDigest
  admission : Option WorkSourceCorrelation

/-- What the digests of a preparation are taken over decides them. -/
structure SourceDigests where
  /-- `source_native_issue`: Project, installation identity and ticket. -/
  issue : Nat → FactoryKey → WorkSourceItem → FactoryDigest
  /-- The identity of a preparation: native issue and input. -/
  preparation : FactoryDigest → Nat → FactoryDigest
  /-- `source_admission_identity`: installation identity, ticket and input. -/
  admission : FactoryKey → WorkSourceItem → Nat → FactoryDigest
  /-- `content_sha256`. -/
  content : List UInt8 → FactoryDigest
  issue_injective : ∀ {project installation item project' installation' item'},
    issue project installation item = issue project' installation' item' →
      project = project' ∧ installation = installation' ∧ item = item'
  preparation_injective : ∀ {digest input digest' input'},
    preparation digest input = preparation digest' input' → digest = digest' ∧ input = input'
  admission_injective : ∀ {installation item input installation' item' input'},
    admission installation item input = admission installation' item' input' →
      installation = installation' ∧ item = item' ∧ input = input'

/-- The code points of a key. -/
def keyCode (key : FactoryKey) : List Nat := key.value.toList.map Char.toNat

theorem keyCode_injective : Function.Injective keyCode := by
  intro a b h
  have hlist : a.value.toList = b.value.toList :=
    List.map_injective_iff.mpr (fun _ _ hchar => Char.toNat_inj.mp hchar) h
  cases a
  cases b
  rw [FactoryKey.mk.injEq]
  exact String.toList_inj.mp hlist

/-- Digests that write down what they are taken over. -/
def writtenDigests : SourceDigests where
  issue project installation item :=
    ⟨Encodable.encode (project, keyCode installation, keyCode item.resource, keyCode item.item)⟩
  preparation digest input := ⟨Encodable.encode (digest.value, input)⟩
  admission installation item input :=
    ⟨Encodable.encode (keyCode installation, keyCode item.resource, keyCode item.item, input)⟩
  content bytes := ⟨Encodable.encode (bytes.map UInt8.toNat)⟩
  issue_injective := by
    rintro project installation ⟨resource, item⟩ project' installation' ⟨resource', item'⟩ h
    have hcode := Encodable.encode_injective (congrArg FactoryDigest.value h)
    simp only [Prod.mk.injEq] at hcode
    obtain ⟨hproj, hinstallation, hresource, hitem⟩ := hcode
    rw [keyCode_injective hinstallation, keyCode_injective hresource, keyCode_injective hitem]
    exact ⟨hproj, rfl, rfl⟩
  preparation_injective := by
    rintro ⟨digest⟩ input ⟨digest'⟩ input' h
    have hcode := Encodable.encode_injective (congrArg FactoryDigest.value h)
    simp only [Prod.mk.injEq] at hcode
    rw [hcode.1, hcode.2]
    exact ⟨rfl, rfl⟩
  admission_injective := by
    rintro installation ⟨resource, item⟩ input installation' ⟨resource', item'⟩ input' h
    have hcode := Encodable.encode_injective (congrArg FactoryDigest.value h)
    simp only [Prod.mk.injEq] at hcode
    obtain ⟨hinstallation, hresource, hitem, hinput⟩ := hcode
    rw [keyCode_injective hinstallation, keyCode_injective hresource, keyCode_injective hitem]
    exact ⟨rfl, rfl, hinput⟩

structure ReserveWorkSourcePreparation where
  claim : WorkSourceScanClaim
  inputId : Nat
  item : WorkSourceItem
  snapshot : List UInt8
  now : Timestamp

/-- Private bytes within the shared bound. -/
def isBounded (bytes : List UInt8) : Bool := bytes ≠ [] ∧ bytes.length ≤ maxSourceInputBytes

/-- The time at which a retention of some milliseconds ends. -/
def retainedUntil (now : Timestamp) (millis : Nat) : Except SourceError Timestamp :=
  okOr (Timestamp.fromUnixMillis (now.unixMillis + millis)) .conflict

/-- `freeze_with_initial_policy`. -/
def ReserveWorkSourcePreparation.freeze (digests : SourceDigests)
    (request : ReserveWorkSourcePreparation) (input : WorkSourceInput)
    (initialPolicy : Option (List UInt8)) : Except SourceError WorkSourcePreparation := do
  if ¬ isBounded request.snapshot ∨ ¬ initialPolicy.all isBounded then .error .conflict
  else if input.id ≠ request.inputId ∨ input.projectId ≠ request.claim.projectId ∨
      ¬ input.definition.enabled then .error .conflict
  else do
    let issue := digests.issue input.projectId input.definition.source.installation.identity
      request.item
    let snapshotExpiresAt ← retainedUntil request.now maxSourceRetentionMillis
    .ok {
      id := digests.preparation issue input.id
      issue
      issueRevision := none
      observedIssueText := none
      input
      item := request.item
      target := request.claim.target
      reservedAt := request.now
      snapshotExpiresAt
      snapshot := request.snapshot
      policy := none
      intent := none
      waiting := none
      initialPolicy
      predecessorCursor := none
      admission := none }

structure PublishSourcePreparationIntent where
  claim : WorkSourceScanClaim
  preparationId : FactoryDigest
  intent : FactoryWorkAdmissionIntent
  now : Timestamp

structure DeferSourcePreparation where
  claim : WorkSourceScanClaim
  preparationId : FactoryDigest
  now : Timestamp
  reason : WorkSourceWaitReason
  cursor : Option FactoryDigest
  policy : Option (List UInt8)

namespace WorkSourcePreparation

variable (digests : SourceDigests) (preparation : WorkSourcePreparation)

/-- `admission_identity`, without its scope. -/
def admissionIdentity : FactoryDigest :=
  digests.admission preparation.input.definition.source.installation.identity preparation.item
    preparation.input.id

def matchesSelectedInput (selected : WorkSourceInput) : Bool :=
  preparation.input.projectId = selected.projectId ∧ preparation.input.id = selected.id ∧
    selected.definition.enabled ∧
    preparation.input.definition.source.installation.identity =
      selected.definition.source.installation.identity ∧
    preparation.input.definition.source.resource = selected.definition.source.resource

def requireSelectedOwner (claim : WorkSourceScanClaim) (selected : WorkSourceInput) :
    Except SourceError Unit :=
  if selected.projectId ≠ claim.projectId ∨ ¬ preparation.matchesSelectedInput selected then
    .error .conflict
  else .ok ()

def withIntent (request : PublishSourcePreparationIntent) :
    Except SourceError WorkSourcePreparation :=
  if preparation.input.projectId ≠ request.claim.projectId ∨
      preparation.id ≠ request.preparationId ∨
      request.intent.projectId ≠ preparation.input.projectId ∨
      request.intent.configuration ≠ preparation.input.definition.target ∨
      request.intent.repository ≠ some preparation.input.definition.repository ∨
      request.intent.externalIdentity ≠ preparation.admissionIdentity digests ∨
      preparation.intent.any (· ≠ request.intent) then
    .error .conflict
  else
    .ok { preparation with
          intent := some request.intent, waiting := none, predecessorCursor := none }

def recordWait (request : DeferSourcePreparation) :
    Except SourceError (WorkSourcePreparation × WorkSourceWait) :=
  if preparation.id ≠ request.preparationId ∨ preparation.admission.isSome ∨
      preparation.snapshot = [] ∨ preparation.snapshotExpiresAt ≤ request.now ∨
      (decide (request.reason = .searching) ≠ request.cursor.isSome) ∨
      ¬ request.policy.all isBounded then
    .error .conflict
  else
    let wait : WorkSourceWait := ⟨preparation.id, request.now, request.reason⟩
    let initialPolicy :=
      if preparation.policy.isNone ∧ preparation.initialPolicy.isNone then request.policy
      else preparation.initialPolicy
    .ok ({ preparation with
           initialPolicy, waiting := some wait, predecessorCursor := request.cursor }, wait)

def correlate (receipt : WorkSourceCorrelation) : WorkSourcePreparation :=
  { preparation with
    waiting := none
    observedIssueText := none
    initialPolicy := none
    predecessorCursor := none
    admission := some receipt }

/-- What the cleanup of a snapshot leaves. -/
def cleared : WorkSourcePreparation :=
  { preparation with
    snapshot := []
    observedIssueText := none
    policy := none
    initialPolicy := none
    predecessorCursor := none }

end WorkSourcePreparation

/-! ## Materializations -/

structure SourceArtifactObject where
  role : FactoryKey
  artifactId : Nat
  encodedSize : Nat
  contentDigest : FactoryDigest
  uploadId : Nat
  mediaType : FactoryKey
  deriving DecidableEq

structure SourceMaterialization where
  preparationId : FactoryDigest
  projectId : Nat
  inputId : Nat
  inputVersion : Nat
  mappingDigest : FactoryDigest
  objects : List SourceArtifactObject
  retentionMillis : Nat
  reservedAt : Timestamp
  expiresAt : Timestamp
  rejection : Option FactoryKey
  cleanedAt : Option Timestamp
  nextCleanupAt : Option Timestamp
  publishedAt : Option Timestamp

structure FreezeSourcePreparationPolicy where
  claim : WorkSourceScanClaim
  preparationId : FactoryDigest
  policy : List UInt8
  now : Timestamp

def FreezeSourcePreparationPolicy.retain (digests : SourceDigests)
    (request : FreezeSourcePreparationPolicy) (preparation : WorkSourcePreparation)
    (current : Option SourceMaterialization) : Except SourceError WorkSourcePreparation :=
  if ¬ isBounded request.policy ∨ preparation.snapshot = [] ∨
      preparation.snapshotExpiresAt ≤ request.now ∨
      preparation.policy.any (· ≠ request.policy) ∨
      current.any (fun manifest =>
        manifest.mappingDigest ≠ digests.content request.policy ∨ manifest.cleanedAt.isSome ∨
          manifest.expiresAt ≤ request.now) then
    .error .conflict
  else .ok { preparation with policy := some request.policy, initialPolicy := none }

structure ReserveSourceArtifacts where
  claim : WorkSourceScanClaim
  preparationId : FactoryDigest
  mappingDigest : FactoryDigest
  objects : List SourceArtifactObject
  retentionMillis : Nat
  now : Timestamp

def isRetentionValid (millis : Nat) : Bool := 1 ≤ millis ∧ millis ≤ maxSourceRetentionMillis

/-- `ReserveSourceArtifacts::validate`: two objects of different roles. -/
def ReserveSourceArtifacts.isValid (request : ReserveSourceArtifacts) : Bool :=
  isRetentionValid request.retentionMillis &&
    match request.objects with
    | [first, second] =>
      decide (first.role ≠ second.role ∧ first.artifactId ≠ second.artifactId ∧
        first.uploadId ≠ second.uploadId ∧ first.mediaType = second.mediaType ∧
        ∀ object ∈ [first, second], 0 < object.encodedSize ∧
          object.encodedSize ≤ maxSourceInputBytes ∧
          (object.mediaType.value = "application/json" ∨ object.mediaType.value = "text/plain"))
    | _ => false

/-- A new reservation or rejection, until its retention or that of the snapshot ends. -/
def reserveMaterialization (preparation : WorkSourcePreparation) (preparationId : FactoryDigest)
    (mappingDigest : FactoryDigest) (objects : List SourceArtifactObject) (retentionMillis : Nat)
    (rejection : Option FactoryKey) (now : Timestamp) : Except SourceError SourceMaterialization := do
  let expires ← retainedUntil now retentionMillis
  .ok {
    preparationId
    projectId := preparation.input.projectId
    inputId := preparation.input.id
    inputVersion := preparation.input.version
    mappingDigest
    objects
    retentionMillis
    reservedAt := now
    expiresAt := min expires preparation.snapshotExpiresAt
    rejection
    cleanedAt := none
    nextCleanupAt := none
    publishedAt := none }

def ReserveSourceArtifacts.retain (request : ReserveSourceArtifacts)
    (preparation : WorkSourcePreparation) (current : Option SourceMaterialization) :
    Except SourceError SourceMaterialization :=
  if ¬ request.isValid then .error .conflict
  else if preparation.snapshotExpiresAt ≤ request.now ∨ preparation.snapshot = [] then
    .error .conflict
  else
    match current with
    | some manifest =>
      if manifest.cleanedAt.isSome ∨ manifest.rejection.isSome ∨
          manifest.mappingDigest ≠ request.mappingDigest ∨ manifest.objects ≠ request.objects ∨
          manifest.retentionMillis ≠ request.retentionMillis ∨
          request.now < manifest.reservedAt ∨ manifest.expiresAt ≤ request.now then
        .error .conflict
      else .ok manifest
    | none =>
      reserveMaterialization preparation request.preparationId request.mappingDigest
        request.objects request.retentionMillis none request.now

structure RejectSourcePreparation where
  claim : WorkSourceScanClaim
  preparationId : FactoryDigest
  mappingDigest : FactoryDigest
  reason : FactoryKey
  retentionMillis : Nat
  now : Timestamp

def RejectSourcePreparation.retain (request : RejectSourcePreparation)
    (preparation : WorkSourcePreparation) (current : Option SourceMaterialization) :
    Except SourceError SourceMaterialization :=
  if ¬ isRetentionValid request.retentionMillis ∨ preparation.snapshotExpiresAt ≤ request.now ∨
      preparation.snapshot = [] then
    .error .conflict
  else
    match current with
    | some manifest =>
      if manifest.rejection ≠ some request.reason ∨
          manifest.mappingDigest ≠ request.mappingDigest ∨
          manifest.retentionMillis ≠ request.retentionMillis ∨ manifest.cleanedAt.isSome ∨
          manifest.expiresAt ≤ request.now then
        .error .conflict
      else .ok manifest
    | none =>
      reserveMaterialization preparation request.preparationId request.mappingDigest []
        request.retentionMillis (some request.reason) request.now

structure PublishSourceArtifacts where
  claim : WorkSourceScanClaim
  preparationId : FactoryDigest
  mappingDigest : FactoryDigest
  now : Timestamp

/-- `SourceMaterialization::publish`; the first publication time stays. -/
def SourceMaterialization.publish (manifest : SourceMaterialization)
    (request : PublishSourceArtifacts) : Except SourceError SourceMaterialization :=
  if manifest.cleanedAt.isSome ∨ manifest.rejection.isSome ∨
      manifest.preparationId ≠ request.preparationId ∨
      manifest.projectId ≠ request.claim.projectId ∨
      manifest.mappingDigest ≠ request.mappingDigest ∨ request.now < manifest.reservedAt ∨
      manifest.expiresAt ≤ request.now then
    .error .conflict
  else .ok { manifest with publishedAt := some (manifest.publishedAt.getD request.now) }

/-! ## Cleanup -/

structure SourcePreparationCleanup where
  preparationId : FactoryDigest
  projectId : Nat
  expiresAt : Timestamp
  objects : List SourceArtifactObject
  cleanedAt : Option Timestamp
  nextCleanupAt : Option Timestamp
  deriving DecidableEq

def SourcePreparationCleanup.fromPreparation (preparation : WorkSourcePreparation)
    (manifest : Option SourceMaterialization) : SourcePreparationCleanup where
  preparationId := preparation.id
  projectId := preparation.input.projectId
  expiresAt := manifest.elim preparation.snapshotExpiresAt fun manifest =>
    min manifest.expiresAt preparation.snapshotExpiresAt
  objects := manifest.elim [] (·.objects)
  cleanedAt := manifest.bind (·.cleanedAt)
  nextCleanupAt := manifest.bind (·.nextCleanupAt)

def SourcePreparationCleanup.isDue (cleanup : SourcePreparationCleanup) (now : Timestamp) : Bool :=
  cleanup.expiresAt ≤ now ∧
    (cleanup.cleanedAt.isNone ∨ cleanup.objects ≠ [] ∧ cleanup.nextCleanupAt.all (· ≤ now))

def SourcePreparationCleanup.requiresAcknowledgement (expected current : SourcePreparationCleanup)
    (now recheckAt : Timestamp) : Except SourceError Bool :=
  if expected.preparationId ≠ current.preparationId ∨ expected.projectId ≠ current.projectId ∨
      expected.expiresAt ≠ current.expiresAt ∨ expected.objects ≠ current.objects ∨
      now < current.expiresAt then
    .error .conflict
  else if expected ≠ current then
    if current.cleanedAt.isSome then .ok false else .error .conflict
  else if ¬ current.isDue now ∨ recheckAt ≤ now then .error .conflict
  else .ok true

end OctaCity.Source
