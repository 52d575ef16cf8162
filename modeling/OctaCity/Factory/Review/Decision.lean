/-
  OctaCity.Factory.Review.Decision

  Decision policies, the Decision Engine and the check of a restored Decision
  (octacity-server-factory, `decision_engine.rs` and `evaluation.rs`).
-/
import OctaCity.Factory.DecisionSignal.Consumption
import OctaCity.Factory.Review.Progress

namespace OctaCity.Factory

open Lib

/-- Policy for optional indeterminate Assessments. -/
inductive IndeterminatePolicy
  | requiredOnly
  | any
  deriving DecidableEq

def IndeterminatePolicy.asStr : IndeterminatePolicy → String
  | .requiredOnly => "required_only"
  | .any => "any"

/-- Deterministic candidate decision. -/
inductive DecisionOutcome
  | accept
  | rework
  | reject
  | escalate
  | cancel
  deriving DecidableEq

def DecisionOutcome.asStr : DecisionOutcome → String
  | .accept => "accept"
  | .rework => "rework"
  | .reject => "reject"
  | .escalate => "escalate"
  | .cancel => "cancel"

/-! ## Policies and Decisions -/

/-- Unvalidated rules of one policy. -/
structure DecisionPolicyDefinition where
  requiredEvidence : List FactoryKey
  requiredEvaluators : List FactoryKey
  quorum : Nat
  severityThreshold : FindingSeverity
  indeterminatePolicy : IndeterminatePolicy
  failureOutcome : DecisionOutcome

/-- Immutable versioned rules of the engine. -/
structure DecisionPolicy where
  version : Nat
  digest : FactoryDigest
  requiredEvidence : List FactoryKey
  requiredEvaluators : List FactoryKey
  quorum : Nat
  severityThreshold : FindingSeverity
  indeterminatePolicy : IndeterminatePolicy
  failureOutcome : DecisionOutcome

def validatePolicyKeys (values : List FactoryKey) (maximum : Nat) (field : String) :
    Except ReviewError Unit :=
  if values = [] ∨ maximum < values.length ∨ ¬values.Nodup then .error (.invalidDecisionPolicy field)
  else .ok ()

def digestPolicy (library : ReviewLibrary) (definition : DecisionPolicyDefinition) :
    FactoryDigest :=
  library.sha256 "octacity.decision-policy.v1"
    ([bigEndian 2 definition.quorum, utf8Bytes definition.severityThreshold.asStr,
      utf8Bytes definition.indeterminatePolicy.asStr, utf8Bytes definition.failureOutcome.asStr] ++
      definition.requiredEvidence.map (fun key => separated ["evidence", key.value]) ++
      definition.requiredEvaluators.map fun key => separated ["evaluator", key.value])

def DecisionPolicy.tryNew (library : ReviewLibrary) (version : Nat)
    (definition : DecisionPolicyDefinition) : Except ReviewError DecisionPolicy := do
  validatePolicyKeys definition.requiredEvidence maxCriterionPacks "required_evidence"
  validatePolicyKeys definition.requiredEvaluators maxEvaluators "required_evaluators"
  if definition.quorum = 0 ∨ maxEvaluators < definition.quorum then
    .error (.invalidDecisionPolicy "quorum")
  else if definition.failureOutcome = .accept then
    .error (.invalidDecisionPolicy "failure_outcome")
  else
    let definition :=
      { definition with
        requiredEvidence := definition.requiredEvidence.insertionSort (· ≤ ·)
        requiredEvaluators := definition.requiredEvaluators.insertionSort (· ≤ ·) }
    .ok
      { version, digest := digestPolicy library definition
        requiredEvidence := definition.requiredEvidence
        requiredEvaluators := definition.requiredEvaluators, quorum := definition.quorum
        severityThreshold := definition.severityThreshold
        indeterminatePolicy := definition.indeterminatePolicy
        failureOutcome := definition.failureOutcome }

def maxDecisionAssessments : Nat := 64
def maxDecisionSignalReceipts : Nat := 64

/-- Most reasons one Decision records. -/
def maxDecisionReasons : Nat := maxCriterionPacks + maxEvaluators + 1

/-- Typed deterministic reason the engine records. -/
inductive DecisionReason
  | policySatisfied
  | requiredEvidenceMissing (kind : FactoryKey)
  | requiredEvidenceFailed (kind : FactoryKey)
  | requiredEvidenceIndeterminate (kind : FactoryKey)
  | requiredAssessmentMissing (evaluator : FactoryKey)
  | assessmentIndeterminate (evaluator : FactoryKey)
  | severityThresholdExceeded (evaluator : FactoryKey) (severity : FindingSeverity)
  | quorumNotMet (required observed : Nat)

structure DecisionBindings where
  inputDigest : FactoryDigest
  policyVersion : Nat
  policyDigest : FactoryDigest

/-- Immutable deterministic candidate disposition. -/
structure Decision where
  id : DecisionId
  planId : EvaluationPlanId
  subject : CandidateSubject
  outcome : DecisionOutcome
  assessmentIds : List AssessmentId
  signalReceiptIds : List DecisionSignalReceiptId
  reasons : List DecisionReason
  inputDigest : FactoryDigest
  policyVersion : Nat
  policyDigest : FactoryDigest

def Decision.fromEngine (id : DecisionId) (plan : EvaluationPlan) (outcome : DecisionOutcome)
    (assessments : List Assessment) (signalReceipts : List DecisionSignalReceipt)
    (reasons : List DecisionReason) (bindings : DecisionBindings) :
    Except ReviewError Decision :=
  if maxDecisionAssessments < assessments.length then
    .error (.collectionLimitExceeded "decision assessments")
  else if maxDecisionSignalReceipts < signalReceipts.length then
    .error (.collectionLimitExceeded "decision signal receipts")
  else do
    validateCount reasons.length 1 maxDecisionReasons "decision reasons"
    if assessments.any fun assessment =>
        assessment.planId ≠ plan.id || assessment.subject ≠ plan.subject then
      .error .inconsistentSubject
    else if ¬(assessments.map (·.id)).Nodup then
      .error (.invalidReference "decision assessment")
    else if ¬(signalReceipts.map (·.id)).Nodup then
      .error (.invalidReference "decision signal receipt")
    else
      .ok
        { id, planId := plan.id, subject := plan.subject, outcome
          assessmentIds := assessments.map (·.id)
          signalReceiptIds := signalReceipts.map (·.id), reasons
          inputDigest := bindings.inputDigest, policyVersion := bindings.policyVersion
          policyDigest := bindings.policyDigest }

/-! ## Input of the engine -/

/-- Complete immutable inputs of one evaluation. -/
structure DecisionEngineInput where
  evidence : EvidenceManifest
  plan : EvaluationPlan
  policy : DecisionPolicy
  assessments : List Assessment
  signalReceipts : List DecisionSignalReceipt
  signalNodeAttemptIds : List EvaluationNodeBinding

/-- Selects the Assessments accepted by the completed join. -/
def DecisionEngineInput.fromCompletedEvaluation (evidence : EvidenceManifest)
    (plan : EvaluationPlan) (policy : DecisionPolicy) (progress : EvaluationProgress)
    (assessments : List Assessment) (signalReceipts : List DecisionSignalReceipt) :
    Except ReviewError DecisionEngineInput := do
  let (accepted, signalNodeAttemptIds) ← progress.decisionBindings plan
  let selected ← accepted.mapM fun id =>
    okOr (assessments.find? fun assessment => assessment.id = id)
      (.invalidReference "evaluation decision assessment")
  .ok { evidence, plan, policy, assessments := selected, signalReceipts, signalNodeAttemptIds }

/-- `WorkSubject == ExactSubject` -/
def WorkSubject.isExact (subject : WorkSubject) (exact : ExactSubject) : Bool :=
  match subject with
  | .repository base => base = exact
  | .projectInput _ _ => false

/-- The node a receipt's request was frozen for. -/
def DecisionSignalReceipt.node (receipt : DecisionSignalReceipt) : EvaluationNodeBinding :=
  (receipt.request.request.runId, receipt.request.request.nodeAttemptId,
    receipt.request.request.frozenInputDigest)

/-- The receipt belongs to the subject and to a node of the join, and is intact. -/
def DecisionSignalReceipt.isBound (library : ReviewLibrary) (receipt : DecisionSignalReceipt)
    (exact : ExactSubject) (allowedNodes : List EvaluationNodeBinding) : Bool :=
  receipt.request.request.subject.isExact exact &&
    receipt.request.request.purpose = .routing && allowedNodes.contains receipt.node &&
    (receipt.validateIntegrity library.toSignalLibrary).isOk

section

variable (library : ReviewLibrary)

def validateSignalReceipts (plan : EvaluationPlan) (receipts : List DecisionSignalReceipt)
    (allowedNodes : List EvaluationNodeBinding) : Except ReviewError Unit :=
  if receipts.any (fun receipt => !receipt.isBound library plan.subject.exact allowedNodes) ∨
      ¬(receipts.map (·.id)).Nodup ∨ ¬(receipts.map (·.request.request.id)).Nodup then
    .error (.invalidReference "decision signal receipt")
  else .ok ()

def validateAssessments (plan : EvaluationPlan) (evidence : EvidenceManifest)
    (assessments : List Assessment) : Except ReviewError Unit :=
  if assessments.any fun assessment =>
      assessment.planId ≠ plan.id || assessment.subject ≠ plan.subject then
    .error .inconsistentSubject
  else if ¬(assessments.map (·.id)).Nodup ∨ ¬(assessments.map (·.evaluator)).Nodup then
    .error (.invalidReference "decision assessment")
  else forM assessments fun assessment => assessment.validateBindings library plan evidence

def validateInput (input : DecisionEngineInput) : Except ReviewError Unit :=
  if input.plan.evidenceId ≠ input.evidence.id ∨ input.plan.subject ≠ input.evidence.subject then
    .error .inconsistentSubject
  else if input.policy.quorum ≠ input.plan.requiredQuorum ∨
      input.plan.evaluatorCount < input.policy.quorum ∨
      input.policy.requiredEvaluators.any fun evaluator =>
        !input.plan.hasEvaluatorIdentity evaluator then
    .error (.invalidDecisionPolicy "evaluation_plan")
  else if maxDecisionAssessments < input.assessments.length then
    .error (.collectionLimitExceeded "decision assessments")
  else if maxDecisionSignalReceipts < input.signalReceipts.length then
    .error (.collectionLimitExceeded "decision signal receipts")
  else do
    validateAssessments library input.plan input.evidence input.assessments
    validateSignalReceipts library input.plan input.signalReceipts input.signalNodeAttemptIds

/-- `Display` of an identifier. -/
def uuidText (uuid : Nat) : String :=
  let digits := hexDigits 32 uuid
  String.ofList (digits.take 8 ++ '-' :: (digits.drop 8).take 4 ++ '-' :: (digits.drop 12).take 4 ++
    '-' :: (digits.drop 16).take 4 ++ '-' :: digits.drop 20)

def encodeEvidenceItem (item : EvidenceItem) : List UInt8 :=
  separated (["evidence", item.kind.value, item.outputKind.asStr,
      uuidText item.artifact.artifactId.uuid, item.artifact.contentDigest.toText] ++
    referenceTexts item.schema ++
    [uuidText item.producer.buildId.uuid, uuidText item.producer.attemptId.uuid,
      uuidText item.producer.jobId.uuid] ++
    referenceTexts item.producer.tool ++ referenceTexts item.producer.plugin ++
    [toString item.publishedAt.unixMillis, toString item.freshUntil.unixMillis,
      item.outcome.asStr])

def encodeSignalReceipt (receipt : DecisionSignalReceipt) : List UInt8 :=
  bigEndian 16 receipt.id.uuid ++ digestBytes receipt.receiptDigest

/-- Byte strings in lexicographic order. -/
def sortBytes (fields : List (List UInt8)) : List (List UInt8) :=
  fields.mergeSort fun a b => a.map UInt8.toNat ≤ b.map UInt8.toNat

def digestDecisionInput (input : DecisionEngineInput) : FactoryDigest :=
  library.sha256 "octacity.decision-engine.input.v3"
    ([bigEndian 16 input.evidence.id.uuid, bigEndian 16 input.plan.id.uuid,
        digestBytes input.evidence.subject.changesetDigest, digestBytes input.policy.digest,
        digestBytes (input.plan.digest library)] ++
      input.evidence.items.rows.map encodeEvidenceItem ++
      sortBytes (input.assessments.map library.assessmentBytes) ++
      sortBytes (input.signalReceipts.map encodeSignalReceipt))

end

/-! ## Evaluation -/

/-- The reason a required evidence kind gives. -/
def evidenceReason (gates : Table EvidenceItem.kind) (kind : FactoryKey) :
    Option DecisionReason :=
  match (gates.find? kind).map EvidenceItem.outcome with
  | none => some (.requiredEvidenceMissing kind)
  | some .failed => some (.requiredEvidenceFailed kind)
  | some .indeterminate => some (.requiredEvidenceIndeterminate kind)
  | some .passed => none

def evaluateRequiredEvidence (policy : DecisionPolicy) (gates : Table EvidenceItem.kind) :
    List DecisionReason :=
  policy.requiredEvidence.filterMap (evidenceReason gates)

/-- The reason an Assessment gives. -/
def assessmentReason (policy : DecisionPolicy) (assessment : Assessment) :
    Option DecisionReason :=
  match assessment.outcome with
  | .indeterminate =>
    if assessment.evaluator ∈ policy.requiredEvaluators ∨ policy.indeterminatePolicy = .any then
      some (.assessmentIndeterminate assessment.evaluator)
    else none
  | .violated =>
    match assessment.severities.max? with
    | some severity =>
      if policy.severityThreshold ≤ severity then
        some (.severityThresholdExceeded assessment.evaluator severity)
      else none
    | none => none
  | .satisfied => none

def evaluateAssessments (policy : DecisionPolicy) (assessments : Table Assessment.evaluator) :
    List DecisionReason :=
  (policy.requiredEvaluators.filter fun evaluator => !assessments.contains evaluator).map
      DecisionReason.requiredAssessmentMissing ++
    assessments.rows.filterMap (assessmentReason policy)

/-- Reasons against acceptance. -/
def decisionReasons (input : DecisionEngineInput) : List DecisionReason :=
  let gates := Table.putAll input.evidence.items.rows
  let assessments := Table.putAll input.assessments
  let reasons :=
    evaluateRequiredEvidence input.policy gates ++ evaluateAssessments input.policy assessments
  if input.assessments.length < input.policy.quorum then
    reasons ++ [.quorumNotMet input.policy.quorum input.assessments.length]
  else reasons

/-- The outcome of the reasons against acceptance, and the reasons recorded with it. -/
def decisionOutcome (input : DecisionEngineInput) : DecisionOutcome × List DecisionReason :=
  let reasons := decisionReasons input
  if reasons = [] then (.accept, [.policySatisfied]) else (input.policy.failureOutcome, reasons)

/-- Applies immutable policy to exact evidence and Assessments. -/
def evaluateDecision (library : ReviewLibrary) (id : DecisionId) (input : DecisionEngineInput) :
    Except ReviewError Decision := do
  validateInput library input
  let inputDigest := digestDecisionInput library input
  let (outcome, reasons) := decisionOutcome input
  let orderedAssessments : Table Assessment.evaluator := Table.putAll input.assessments
  let orderedReceipts := input.signalReceipts.mergeSort fun a b => a.id ≤ b.id
  Decision.fromEngine id input.plan outcome orderedAssessments.rows orderedReceipts reasons
    ⟨inputDigest, input.policy.version, input.policy.digest⟩

/-- `FactoryEvaluationDecision::from_completed_join` -/
def decideCompletedJoin (library : ReviewLibrary) (id : DecisionId) (evidence : EvidenceManifest)
    (plan : EvaluationPlan) (policy : DecisionPolicy) (progress : EvaluationProgress)
    (assessments : List Assessment) (signalReceipts : List DecisionSignalReceipt) :
    Except ReviewError Decision := do
  let input ← DecisionEngineInput.fromCompletedEvaluation evidence plan policy progress assessments
    signalReceipts
  evaluateDecision library id input

/-- The last value of an identifier, as collecting into a hash map keeps it. -/
def lastById {α κ : Type} [DecidableEq κ] (id : α → κ) (values : List α) (key : κ) : Option α :=
  values.reverse.find? fun value => id value = key

/-- Revalidates every immutable record the Decision consumed. -/
def Decision.validateBindings (library : ReviewLibrary) (decision : Decision)
    (plan : EvaluationPlan) (progress : EvaluationProgress) (assessments : List Assessment)
    (signalReceipts : List DecisionSignalReceipt) : Except ReviewError Unit :=
  if decision.planId ≠ plan.id ∨ decision.subject ≠ plan.subject then .error .inconsistentSubject
  else do
    let (acceptedAssessments, acceptedNodes) ← progress.decisionBindings plan
    if ¬(acceptedAssessments ⊆ decision.assessmentIds ∧
        decision.assessmentIds ⊆ acceptedAssessments) then
      .error (.invalidReference "decision completed join")
    else
      let assessmentsValid := decision.assessmentIds.all fun id =>
        (lastById Assessment.id assessments id).any fun assessment =>
          assessment.planId = decision.planId && assessment.subject = decision.subject &&
            plan.branches.rows.any (·.allowsEvaluator assessment.evaluatorReference)
      let receiptsValid := decision.signalReceiptIds.all fun id =>
        (lastById DecisionSignalReceipt.id signalReceipts id).any fun receipt =>
          receipt.isBound library decision.subject.exact acceptedNodes
      if decision.assessmentIds.Nodup ∧ decision.signalReceiptIds.Nodup ∧ assessmentsValid ∧
          receiptsValid then .ok ()
      else .error (.invalidReference "decision inputs")

end OctaCity.Factory
