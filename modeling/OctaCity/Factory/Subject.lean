/-
  OctaCity.Factory.Subject

  What Factory Work is about (octacity-server-factory, `subject.rs`, the text
  of `value.rs`): exact repository bases, the candidates derived from them and
  immutable inputs without a repository.
-/
import OctaCity.Factory.Permission
import OctaCity.Trigger.Schedule

namespace OctaCity.Factory

/-- Entities that reviews and Decision Signals name. -/
inductive ReviewEntityKind
  | project
  | repository
  | artifact
  | decisionSignalRequest
  | decisionSignalReceipt
  | evidenceManifest
  | evaluationPlan
  | assessment
  | contextManifest
  | decision
  | changeSet
  | build
  | attempt
  | job

/-- Opaque non-nil identifier of one kind of entity. -/
structure ReviewId (entity : ReviewEntityKind) where
  uuid : Nat
  nonNil : uuid ≠ 0

theorem ReviewId.uuid_inj {entity : ReviewEntityKind} {a b : ReviewId entity} :
    a.uuid = b.uuid ↔ a = b := by
  cases a
  cases b
  simp

instance {entity : ReviewEntityKind} : DecidableEq (ReviewId entity) := fun _ _ =>
  decidable_of_iff _ ReviewId.uuid_inj

def ReviewId.ofSucc {entity : ReviewEntityKind} (n : Nat) : ReviewId entity :=
  ⟨n + 1, n.succ_ne_zero⟩

instance {entity : ReviewEntityKind} : LinearOrder (ReviewId entity) :=
  LinearOrder.lift' ReviewId.uuid fun a b h => by
    cases a
    cases b
    simpa using h

abbrev ProjectId := ReviewId .project
abbrev RepositoryId := ReviewId .repository
abbrev ArtifactId := ReviewId .artifact
abbrev DecisionSignalRequestId := ReviewId .decisionSignalRequest
abbrev DecisionSignalReceiptId := ReviewId .decisionSignalReceipt
abbrev EvidenceManifestId := ReviewId .evidenceManifest
abbrev EvaluationPlanId := ReviewId .evaluationPlan
abbrev AssessmentId := ReviewId .assessment
abbrev ContextManifestId := ReviewId .contextManifest
abbrev DecisionId := ReviewId .decision
abbrev ChangeSetId := ReviewId .changeSet
abbrev BuildId := ReviewId .build
abbrev AttemptId := ReviewId .attempt
abbrev JobId := ReviewId .job

def maxFactoryTextBytes : Nat := 4 * 1024
def maxImmutableRevisionBytes : Nat := 512

/-- Trimmed, control-free and within a bound. -/
def isBoundedText (limit : Nat) (value : String) : Bool :=
  value ≠ "" ∧ value.utf8ByteSize ≤ limit ∧
  ¬value.toList.head?.any Trigger.isWhitespace ∧ ¬value.toList.getLast?.any Trigger.isWhitespace ∧
  value.toList.all (!isControl ·)

structure FactoryText where
  value : String
  bounded : isBoundedText maxFactoryTextBytes value = true

structure ImmutableRevision where
  value : String
  bounded : isBoundedText maxImmutableRevisionBytes value = true
  deriving DecidableEq

/-- Exact immutable repository base. -/
structure ExactSubject where
  projectId : ProjectId
  repositoryId : RepositoryId
  baseRevision : ImmutableRevision
  deriving DecidableEq

/-- Exact immutable candidate derived from one base. -/
structure CandidateSubject where
  exact : ExactSubject
  candidateRevision : ImmutableRevision
  changesetDigest : FactoryDigest
  deriving DecidableEq

/-- Immutable Work correlation; never an access grant. -/
inductive WorkSubject
  | repository (subject : ExactSubject)
  | projectInput (projectId : ProjectId) (inputDigest : FactoryDigest)

end OctaCity.Factory
