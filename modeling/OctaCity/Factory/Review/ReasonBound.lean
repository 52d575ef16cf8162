/-
  OctaCity.Factory.Review.ReasonBound

  When the grounds for refusal fit the reasons of a Decision
  (octacity-server-factory, `evaluation.rs`, `review_plan.rs`).  The bound on
  reasons counts every required evidence kind and one reason for each of
  `maxEvaluators` evaluators.
-/
import OctaCity.Factory.DecisionSignal.Tampering
import OctaCity.Factory.Review.Exactness

namespace OctaCity.Factory

open Lib List

/-! ## A crowded join -/

namespace JoinSample

/-- A key of two letters. -/
def key (family : Char) (i : Nat) : FactoryKey := ⟨String.ofList [family, Char.ofNat (97 + i)]⟩

def reference (family : Char) (i : Nat) : ImmutableReference := ⟨key family i, ⟨"1"⟩, ⟨7⟩⟩

def subject : CandidateSubject :=
  { exact := ⟨.ofSucc 0, .ofSucc 1, ⟨"base", by decide⟩⟩
    candidateRevision := ⟨"candidate", by decide⟩, changesetDigest := ⟨3⟩ }

def artifact (i : Nat) : FactoryArtifactReference := ⟨⟨i + 1, i.succ_ne_zero⟩, ⟨7⟩, 10⟩

def item : EvidenceItem :=
  { subject, kind := key 'k' 0, outputKind := .report, artifact := artifact 0
    schema := reference 'o' 0
    producer := ⟨.ofSucc 0, .ofSucc 1, .ofSucc 2, reference 't' 0, reference 'u' 0⟩
    outcome := .passed, publishedAt := ⟨0⟩, freshUntil := ⟨1000⟩ }

def evidence : EvidenceManifest :=
  { id := .ofSucc 3, changesetId := .ofSucc 4, subject, constructedAt := ⟨10⟩
    requirements := ⟨[⟨key 'k' 0, .report, reference 'o' 0, reference 't' 0, reference 'u' 0⟩],
      by decide⟩
    items := ⟨[item], by decide⟩, inputs := [] }

def pack : CriterionPack :=
  ⟨.ofSucc 0, reference 'c' 0, reference 'o' 1, artifact 1, by decide⟩

/-- Branch `i`, with one primary and one substitute evaluator. -/
def branch (i : Nat) : ReviewBranch := ⟨key 'b' i, reference 'p' i, [reference 's' i], true⟩

def wire : EvaluationPlanWire :=
  { id := .ofSucc 5, evidenceId := .ofSucc 3, purpose := .codeReview, subject
    criterionPacks := [pack], branches := (List.range 17).map branch
    requiredQuorum := 17
    budget := ⟨1, 1000, 1, 1, 1⟩, createdAt := ⟨0⟩, deadline := ⟨1000⟩
    dataHandling := reference 'd' 0 }

def plan : EvaluationPlan :=
  { id := .ofSucc 5, evidenceId := .ofSucc 3, purpose := .codeReview, subject
    criterionPacks := ⟨[pack], by decide⟩
    branches := ⟨(List.range 17).map branch, by decide⟩, requiredQuorum := 17
    budget := ⟨1, 1000, 1, 1, 1⟩, createdAt := ⟨0⟩, deadline := ⟨1000⟩
    dataHandling := reference 'd' 0 }

theorem fromParts_wire : EvaluationPlan.fromParts wire = .ok plan := rfl

/-- The policy that requires this many kinds of evidence and every substitute. -/
def definition (kinds : Nat) : DecisionPolicyDefinition :=
  { requiredEvidence := (List.range kinds).map (key 'e')
    requiredEvaluators := (List.range 17).map (key 's'), quorum := 17, severityThreshold := .low
    indeterminatePolicy := .requiredOnly, failureOutcome := .rework }

variable (library : ReviewLibrary)

def policy (kinds : Nat) : DecisionPolicy :=
  { version := 1, digest := digestPolicy library (definition kinds)
    requiredEvidence := (List.range kinds).map (key 'e')
    requiredEvaluators := (List.range 17).map (key 's'), quorum := 17, severityThreshold := .low
    indeterminatePolicy := .requiredOnly, failureOutcome := .rework }

theorem tryNew_one : DecisionPolicy.tryNew library 1 (definition 1) = .ok (policy library 1) := rfl

theorem tryNew_most : DecisionPolicy.tryNew library 1 (definition 32) = .ok (policy library 32) := rfl

/-- The violation the primary evaluator of branch `i` found. -/
def assessment (i : Nat) : Assessment :=
  { id := ⟨i + 1, i.succ_ne_zero⟩, planId := .ofSucc 5, subject, outcome := .violated
    summary := ⟨1, subject, ⟨"summary"⟩, ⟨7⟩, ⟨7⟩⟩
    findings := [⟨.violation .high, ⟨"finding"⟩, [⟨key 'k' 0, artifact 0⟩], ⟨"remedy"⟩, ⟨7⟩⟩]
    provenance :=
      { planDigest := plan.digest library, evidenceId := .ofSucc 3
        criterionPacks := [reference 'c' 0], evaluator := reference 'p' i
        model := reference 'm' 0, promptDigest := ⟨7⟩, result := artifact 2, record := artifact 3 } }

def assessments : List Assessment := (List.range 17).map (assessment library)

def result (i : Nat) : EvaluationBranchResult :=
  { branch := key 'b' i, evaluator := reference 'p' i, assessmentId := ⟨i + 1, i.succ_ne_zero⟩
    nodeAttemptId := ⟨i + 1, i.succ_ne_zero⟩, factoryRunId := .ofSucc 0, inputDigest := ⟨7⟩
    contextManifestId := .ofSucc 0, contextDigest := ⟨7⟩, substituted := false }

def progress : EvaluationProgress :=
  { branches :=
      ⟨(List.range 17).map fun i => ⟨key 'b' i, true, .completed, reference 'p' i,
        [reference 's' i], some (result i)⟩, by decide⟩
    requiredQuorum := 17 }

def input (kinds : Nat) : DecisionEngineInput :=
  { evidence, plan, policy := policy library kinds, assessments := assessments library
    signalReceipts := [], signalNodeAttemptIds := progress.results.map (·.node) }

theorem fromCompleted (kinds : Nat) : DecisionEngineInput.fromCompletedEvaluation evidence plan
    (policy library kinds) progress (assessments library) [] = .ok (input library kinds) := rfl

theorem mem_input {kinds : Nat} {a : Assessment} (h : a ∈ (input library kinds).assessments) :
    ∃ i, i ∈ List.range 17 ∧ assessment library i = a :=
  mem_map.mp h

theorem ids : (assessments library).map (·.id) =
    (List.range 17).map fun i => (⟨i + 1, i.succ_ne_zero⟩ : AssessmentId) := rfl

theorem evaluators : (assessments library).map (·.evaluator) = (List.range 17).map (key 'p') := rfl

theorem hasEvaluator {i : Nat} (hi : i ∈ List.range 17) :
    plan.hasEvaluator (reference 'p' i) = true :=
  EvaluationPlan.hasEvaluator_iff.mpr (mem_flatMap.mpr
    ⟨branch i, mem_map_of_mem hi, mem_cons_self⟩)

theorem validateBindings {i : Nat} (hi : i ∈ List.range 17) :
    (assessment library i).validateBindings library plan evidence = .ok () :=
  Assessment.validateBindings_eq_ok.mpr
    ⟨⟨rfl, rfl, rfl, rfl, rfl, rfl, hasEvaluator hi⟩, rfl, rfl⟩

theorem accepted (kinds : Nat) : (input library kinds).Accepted library where
  evidence_id := rfl
  subject := rfl
  quorum := rfl
  quorum_le := by
    have hcount : plan.evaluatorCount = 17 := rfl
    exact hcount.ge
  required := by
    intro evaluator hmem
    obtain ⟨i, hi, rfl⟩ := mem_map.mp hmem
    have hnamed : reference 's' i ∈ (branch i).evaluators :=
      mem_cons_of_mem _ mem_cons_self
    exact EvaluationPlan.hasEvaluatorIdentity_iff.mpr (mem_map.mpr ⟨reference 's' i,
      mem_flatMap.mpr ⟨branch i, mem_map_of_mem hi, hnamed⟩, rfl⟩)
  assessments_le := by
    rw [input, assessments, length_map]
    decide
  receipts_le := Nat.zero_le _
  plan_bound := by
    intro a hmem
    obtain ⟨i, -, rfl⟩ := mem_input library hmem
    exact ⟨rfl, rfl⟩
  ids_nodup := by
    rw [input, ids]
    decide
  evaluators_nodup := by
    rw [input, evaluators]
    decide
  bindings := by
    intro a hmem
    obtain ⟨i, hi, rfl⟩ := mem_input library hmem
    exact validateBindings library hi
  receipts_bound := fun _ hmem => absurd hmem not_mem_nil
  receipt_ids_nodup := nodup_nil
  request_ids_nodup := nodup_nil

theorem identified : Identified Assessment.id (assessments library) := by
  intro a ha b hb h
  obtain ⟨i, -, rfl⟩ := mem_map.mp ha
  obtain ⟨j, -, rfl⟩ := mem_map.mp hb
  rw [Nat.succ.inj (congrArg ReviewId.uuid h)]

theorem refusals_one :
    (policy library 1).refusals evidence (progress.consumed (assessments library)) = 35 := rfl

theorem refusals_most :
    (policy library 32).refusals evidence (progress.consumed (assessments library)) = 66 := rfl

/-- A hash that keeps its input, over records told apart by their identifiers. -/
def keeping : ReviewLibrary where
  sha256 := ReceiptSample.hash
  criteriaBytes _ := []
  canonicalJson := some
  planBytes plan := bigEndian 16 plan.id.uuid
  assessmentBytes assessment := bigEndian 16 assessment.id.uuid

end JoinSample

/-- With one required kind of evidence the join is decided. -/
theorem decideCompletedJoin_exact_iff_sample :
    ∃ decision, DecidesExactly JoinSample.keeping JoinSample.evidence JoinSample.plan
      (JoinSample.policy JoinSample.keeping 1) JoinSample.progress
      (JoinSample.assessments JoinSample.keeping) [] ⟨9, by decide⟩ decision :=
  (decideCompletedJoin_exact_iff JoinSample.fromParts_wire (JoinSample.tryNew_one _)
    (JoinSample.identified _) (JoinSample.fromCompleted _ 1)
    (validateInput_eq_ok.mpr (JoinSample.accepted _ 1)) _).mpr
      (by rw [JoinSample.refusals_one]; decide)

/-- With thirty-two required kinds, every substitute required and every primary violated, the valid
join gives sixty-six reasons and no Decision. -/
theorem crowded_join_undecided :
    ¬∀ (library : ReviewLibrary) (wire : EvaluationPlanWire) (plan : EvaluationPlan) (version : Nat)
      (definition : DecisionPolicyDefinition) (policy : DecisionPolicy)
      (evidence : EvidenceManifest) (progress : EvaluationProgress) (assessments : List Assessment)
      (receipts : List DecisionSignalReceipt) (input : DecisionEngineInput) (id : DecisionId),
      EvaluationPlan.fromParts wire = .ok plan →
      DecisionPolicy.tryNew library version definition = .ok policy →
      Identified Assessment.id assessments →
      DecisionEngineInput.fromCompletedEvaluation evidence plan policy progress assessments receipts =
        .ok input → validateInput library input = .ok () →
      ∃ decision, decideCompletedJoin library id evidence plan policy progress assessments receipts =
        .ok decision := by
  intro hclaim
  have hvalid := validateInput_eq_ok.mpr (JoinSample.accepted JoinSample.keeping 32)
  have hinput := JoinSample.fromCompleted JoinSample.keeping 32
  obtain ⟨decision, hdecd⟩ := hclaim JoinSample.keeping _ _ _ _ _ _ _ _ _ _ ⟨9, by decide⟩
    JoinSample.fromParts_wire (JoinSample.tryNew_most _) (JoinSample.identified _) hinput hvalid
  have hfits := ((decideCompletedJoin_eq_ok_iff
    (EvaluationPlan.fromParts_wellFormed JoinSample.fromParts_wire) hinput hvalid).mp hdecd).1
  rw [JoinSample.refusals_most] at hfits
  exact absurd hfits (by decide)

end OctaCity.Factory
