/-
  OctaCity.Factory.Review.Assessment

  Evaluator results and their bindings (octacity-server-factory,
  `assessment.rs`, `assessment/finding.rs` and `assessment/provenance.rs`).
-/
import OctaCity.Factory.DecisionSignal.Question
import OctaCity.Factory.Review.Plan

namespace OctaCity.Factory

open Lib

/-- Schema-valid outcome of one independent evaluator. -/
inductive AssessmentOutcome
  | satisfied
  | violated
  | indeterminate
  deriving DecidableEq

/-- Ordered severity of one typed violation. -/
inductive FindingSeverity
  | advisory
  | low
  | medium
  | high
  | critical
  deriving DecidableEq

/-- Place of a severity in the order. -/
def FindingSeverity.rank : FindingSeverity → Nat
  | .advisory => 0
  | .low => 1
  | .medium => 2
  | .high => 3
  | .critical => 4

instance : LinearOrder FindingSeverity :=
  LinearOrder.lift' FindingSeverity.rank fun a b h => by
    cases a <;> cases b <;> first | rfl | cases h

def FindingSeverity.asStr : FindingSeverity → String
  | .advisory => "advisory"
  | .low => "low"
  | .medium => "medium"
  | .high => "high"
  | .critical => "critical"

/-- Exact manifest item one finding cites. -/
structure AssessmentEvidenceReference where
  kind : FactoryKey
  artifact : FactoryArtifactReference
  deriving DecidableEq

inductive AssessmentFindingKind
  | violation (severity : FindingSeverity)
  | evidenceGap
  deriving DecidableEq

/-- Durable model-authored text; here it is only serialized. -/
structure FactorySafeText where
  value : String
  deriving DecidableEq

/-- One typed finding returned by an evaluator. -/
structure AssessmentFinding where
  finding : AssessmentFindingKind
  summary : FactorySafeText
  evidence : List AssessmentEvidenceReference
  remediation : FactorySafeText
  fingerprint : FactoryDigest
  deriving DecidableEq

def AssessmentFinding.severity (finding : AssessmentFinding) : Option FindingSeverity :=
  match finding.finding with
  | .violation severity => some severity
  | .evidenceGap => none

/-- Bounded textual summary bound to the candidate. -/
structure BoundedSummary where
  schemaVersion : Nat
  subject : CandidateSubject
  content : FactorySafeText
  contentDigest : FactoryDigest
  provenanceDigest : FactoryDigest
  deriving DecidableEq

/-- Provenance required to reproduce one Assessment. -/
structure AssessmentProvenance where
  planDigest : FactoryDigest
  evidenceId : EvidenceManifestId
  criterionPacks : List ImmutableReference
  evaluator : ImmutableReference
  model : ImmutableReference
  promptDigest : FactoryDigest
  result : FactoryArtifactReference
  record : FactoryArtifactReference
  deriving DecidableEq

/-- Immutable evaluator result for one exact plan. -/
structure Assessment where
  id : AssessmentId
  planId : EvaluationPlanId
  subject : CandidateSubject
  outcome : AssessmentOutcome
  summary : BoundedSummary
  findings : List AssessmentFinding
  provenance : AssessmentProvenance
  deriving DecidableEq

namespace Assessment

/-- The selected evaluator's logical identity. -/
def evaluator (assessment : Assessment) : FactoryKey := assessment.provenance.evaluator.identity

/-- The selected evaluator's identity, version and digest. -/
def evaluatorReference (assessment : Assessment) : ImmutableReference :=
  assessment.provenance.evaluator

/-- Severities of the typed violations. -/
def severities (assessment : Assessment) : List FindingSeverity :=
  assessment.findings.filterMap AssessmentFinding.severity

end Assessment

/-- The hash, and what serde_json makes of the records. -/
structure ReviewLibrary extends SignalLibrary where
  planBytes : EvaluationPlan → List UInt8
  assessmentBytes : Assessment → List UInt8

variable (library : ReviewLibrary)

def EvaluationPlan.digest (plan : EvaluationPlan) : FactoryDigest :=
  library.sha256 "octacity.factory.evaluation-plan.v2" [library.planBytes plan]

/-- Verifies restored bindings against the plan and the evidence. -/
def Assessment.validateBindings (assessment : Assessment) (plan : EvaluationPlan)
    (evidence : EvidenceManifest) : Except ReviewError Unit :=
  if assessment.planId ≠ plan.id ∨ assessment.subject ≠ plan.subject ∨
      assessment.provenance.planDigest ≠ plan.digest library ∨
      assessment.provenance.evidenceId ≠ evidence.id ∨ plan.evidenceId ≠ evidence.id ∨
      evidence.subject ≠ assessment.subject ∨
      plan.hasEvaluator assessment.provenance.evaluator = false then
    .error (.invalidReference "assessment bindings")
  else if plan.criterionPacks.rows.map (·.reference) ≠ assessment.provenance.criterionPacks ∨
      (assessment.findings.flatMap (·.evidence)).any (fun reference =>
        ((evidence.item reference.kind).map (·.artifact)) ≠ some reference.artifact) then
    .error (.invalidReference "assessment bindings")
  else .ok ()

variable {library : ReviewLibrary} {assessment : Assessment} {plan : EvaluationPlan}
  {evidence : EvidenceManifest}

/-- An Assessment's bindings hold when it names the plan, its subject and evidence, an evaluator and
the criterion packs of the plan, and cites the artifacts of the evidence. -/
theorem Assessment.validateBindings_eq_ok :
    assessment.validateBindings library plan evidence = .ok () ↔
      (assessment.planId = plan.id ∧ assessment.subject = plan.subject ∧
        assessment.provenance.planDigest = plan.digest library ∧
        assessment.provenance.evidenceId = evidence.id ∧ plan.evidenceId = evidence.id ∧
        evidence.subject = assessment.subject ∧
        plan.hasEvaluator assessment.evaluatorReference = true) ∧
      plan.criterionPacks.rows.map (·.reference) = assessment.provenance.criterionPacks ∧
      (assessment.findings.flatMap (·.evidence)).any (fun reference =>
        ((evidence.item reference.kind).map (·.artifact)) ≠ some reference.artifact) = false := by
  unfold validateBindings evaluatorReference
  split
  · rename_i hforeign
    refine iff_of_false nofun fun ⟨⟨h₁, h₂, h₃, h₄, h₅, h₆, h₇⟩, _⟩ => ?_
    exact hforeign.elim (· h₁) (·.elim (· h₂) (·.elim (· h₃) (·.elim (· h₄) (·.elim (· h₅)
      (·.elim (· h₆) fun h => Bool.noConfusion (h₇.symm.trans h))))))
  · rename_i hbound
    simp only [not_or, not_not, Bool.not_eq_false] at hbound
    rw [and_iff_right hbound]
    split
    · rename_i hcited
      refine iff_of_false nofun fun ⟨hpacks, hartifacts⟩ => ?_
      exact hcited.elim (· hpacks) fun h => Bool.noConfusion (hartifacts.symm.trans h)
    · rename_i hcited
      simpa only [true_iff, not_or, not_not, Bool.not_eq_true] using hcited

/-- An Assessment whose bindings hold comes from an evaluator of the plan. -/
theorem Assessment.validateBindings_hasEvaluator
    (h : assessment.validateBindings library plan evidence = .ok ()) :
    plan.hasEvaluator assessment.evaluatorReference = true :=
  (validateBindings_eq_ok.mp h).1.2.2.2.2.2.2

end OctaCity.Factory
