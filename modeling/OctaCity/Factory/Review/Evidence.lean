/-
  OctaCity.Factory.Review.Evidence

  Retained deterministic evidence of one candidate (octacity-server-factory,
  `evidence.rs`).  A manifest keeps its requirements and items in the order of
  their kinds, so the order they were supplied in is gone.
-/
import OctaCity.Factory.Subject
import OctaCity.Lib.Table

namespace OctaCity.Factory

open Lib

/-- The errors planning, joining and deciding a review raise. -/
inductive ReviewError
  | invalidReference (relationship : String)
  | collectionLimitExceeded (collection : String)
  | inconsistentSubject
  | invalidDecisionPolicy (field : String)
  /-- `InvalidLifecycle` of a running Factory Run. -/
  | invalidLifecycle

def maxEvidenceItems : Nat := 256

/-- Number of values within bounds. -/
def validateCount (count minimum maximum : Nat) (collection : String) : Except ReviewError Unit :=
  if count < minimum then .error (.invalidReference collection)
  else if maximum < count then .error (.collectionLimitExceeded collection)
  else .ok ()

theorem validateCount_eq_ok {count minimum maximum : Nat} {collection : String} :
    validateCount count minimum maximum collection = .ok () ↔ minimum ≤ count ∧ count ≤ maximum := by
  unfold validateCount
  split
  · simp
    omega
  · split
    · simp
      omega
    · simp
      omega

/-- Authoritative outcome projected from exact deterministic evidence. -/
inductive DeterministicGateOutcome
  | passed
  | failed
  | indeterminate
  deriving DecidableEq

def DeterministicGateOutcome.asStr : DeterministicGateOutcome → String
  | .passed => "passed"
  | .failed => "failed"
  | .indeterminate => "indeterminate"

inductive EvidenceOutputKind
  | report
  | artifact
  deriving DecidableEq

def EvidenceOutputKind.asStr : EvidenceOutputKind → String
  | .report => "report"
  | .artifact => "artifact"

structure FactoryArtifactReference where
  artifactId : ArtifactId
  contentDigest : FactoryDigest
  encodedSize : Nat
  deriving DecidableEq

/-- Exact ordinary-Build producer of one evidence output. -/
structure EvidenceProducer where
  buildId : BuildId
  attemptId : AttemptId
  jobId : JobId
  tool : ImmutableReference
  plugin : ImmutableReference

/-- One required output in a complete manifest. -/
structure EvidenceRequirement where
  kind : FactoryKey
  outputKind : EvidenceOutputKind
  schema : ImmutableReference
  tool : ImmutableReference
  plugin : ImmutableReference

/-- One typed, content-addressed report or Artifact. -/
structure EvidenceItem where
  subject : CandidateSubject
  kind : FactoryKey
  outputKind : EvidenceOutputKind
  artifact : FactoryArtifactReference
  schema : ImmutableReference
  producer : EvidenceProducer
  outcome : DeterministicGateOutcome
  publishedAt : Timestamp
  freshUntil : Timestamp

/-- The item is what the requirement of its place asks for. -/
def EvidenceRequirement.covers (requirement : EvidenceRequirement) (item : EvidenceItem) : Bool :=
  requirement.kind = item.kind && requirement.outputKind = item.outputKind &&
    requirement.schema = item.schema && requirement.tool = item.producer.tool &&
    requirement.plugin = item.producer.plugin

/-- Immutable bounded evidence for one exact candidate. -/
structure EvidenceManifest where
  id : EvidenceManifestId
  changesetId : ChangeSetId
  subject : CandidateSubject
  constructedAt : Timestamp
  requirements : Table EvidenceRequirement.kind
  items : Table EvidenceItem.kind
  inputs : List FactoryArtifactReference

def EvidenceManifest.fromParts (id : EvidenceManifestId) (changesetId : ChangeSetId)
    (subject : CandidateSubject) (constructedAt : Timestamp)
    (requirements : List EvidenceRequirement) (items : List EvidenceItem) :
    Except ReviewError EvidenceManifest := do
  validateCount requirements.length 1 maxEvidenceItems "evidence requirements"
  if maxEvidenceItems < items.length then .error (.collectionLimitExceeded "evidence items")
  else do
    let requirements ← Table.empty.insertAll (fun _ => .invalidReference "evidence artifact")
      requirements
    let items ← Table.empty.insertAll (fun _ => .invalidReference "evidence artifact") items
    if ¬(items.rows.map (·.artifact.artifactId)).Nodup then
      .error (.invalidReference "evidence artifact")
    else if requirements.rows.length ≠ items.rows.length ∨
        (requirements.rows.zip items.rows).any (fun (requirement, item) =>
          !requirement.covers item) then
      .error (.invalidReference "evidence completeness")
    else if items.rows.any (·.subject ≠ subject) then .error .inconsistentSubject
    else if items.rows.any fun item =>
        constructedAt < item.publishedAt || item.freshUntil ≤ constructedAt then
      .error (.invalidReference "evidence freshness")
    else .ok { id, changesetId, subject, constructedAt, requirements, items, inputs := [] }

/-- Resolves one canonical evidence kind to its retained item. -/
def EvidenceManifest.item (manifest : EvidenceManifest) (kind : FactoryKey) :
    Option EvidenceItem :=
  manifest.items.find? kind

/-- A manifest does not depend on the order its items are supplied in. -/
theorem EvidenceManifest.fromParts_perm {id : EvidenceManifestId} {changesetId : ChangeSetId}
    {subject : CandidateSubject} {constructedAt : Timestamp}
    {requirements : List EvidenceRequirement} {items items' : List EvidenceItem}
    {manifest : EvidenceManifest} (hperm : items'.Perm items)
    (h : fromParts id changesetId subject constructedAt requirements items = .ok manifest) :
    fromParts id changesetId subject constructedAt requirements items' = .ok manifest := by
  unfold fromParts at h ⊢
  obtain ⟨_, hcount, h⟩ := bind_eq_ok.mp h
  refine bind_eq_ok.mpr ⟨(), hcount, ?_⟩
  rw [hperm.length_eq]
  split at h
  · cases h
  · rename_i hlimit
    rw [if_neg hlimit]
    obtain ⟨table, htable, h⟩ := bind_eq_ok.mp h
    obtain ⟨rows, hrows, h⟩ := bind_eq_ok.mp h
    exact bind_eq_ok.mpr ⟨table, htable, bind_eq_ok.mpr ⟨rows, Table.insertAll_perm hperm hrows, h⟩⟩

end OctaCity.Factory
