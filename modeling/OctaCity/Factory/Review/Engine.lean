/-
  OctaCity.Factory.Review.Engine

  What the Decision Engine checks of its input and what it makes of it
  (octacity-server-factory, `decision_engine.rs`).

  An accepted input has distinct evaluators, so the maps the engine collects
  hold exactly the supplied Assessments, and all that is left to fail is the
  bound on the number of reasons.
-/
import OctaCity.Factory.Review.Decision
import OctaCity.Lib.Sorting

namespace OctaCity.Factory

open Lib List

/-! ## Selection -/

/-- The Assessments a join selects among those supplied. -/
def EvaluationProgress.consumed (progress : EvaluationProgress) (assessments : List Assessment) :
    List Assessment :=
  progress.results.filterMap fun result =>
    assessments.find? fun assessment => assessment.id = result.assessmentId

/-- What a join hands to the engine. -/
def EvaluationProgress.engineInput (progress : EvaluationProgress) (evidence : EvidenceManifest)
    (plan : EvaluationPlan) (policy : DecisionPolicy) (assessments : List Assessment)
    (signalReceipts : List DecisionSignalReceipt) : DecisionEngineInput :=
  { evidence, plan, policy, assessments := progress.consumed assessments, signalReceipts
    signalNodeAttemptIds := progress.results.map (·.node) }

variable {assessments : List Assessment} {evidence : EvidenceManifest} {policy : DecisionPolicy}
  {input : DecisionEngineInput}

theorem mapM_find?_eq_ok {error : ReviewError}
    {results : List EvaluationBranchResult} {selected : List Assessment} :
    ((results.map (·.assessmentId)).mapM fun id =>
        okOr (assessments.find? fun assessment => assessment.id = id) error) = .ok selected ↔
      List.Forall₂ (fun result assessment => (assessments.find? fun assessment =>
        assessment.id = result.assessmentId) = some assessment) results selected := by
  rw [mapM_eq_ok, forall₂_map_left_iff]
  simp only [okOr_eq_ok]

theorem filterMap_eq_of_forall₂ {α β : Type} {f : α → Option β} {values : List α} {images : List β}
    (h : List.Forall₂ (fun value image => f value = some image) values images) :
    values.filterMap f = images := by
  induction h with
  | nil => rfl
  | cons hhead _ ih => rw [filterMap_cons_some hhead, ih]

/-- What selection from a completed join hands to the engine. -/
theorem fromCompletedEvaluation_eq_ok {plan : EvaluationPlan} {progress : EvaluationProgress}
    {receipts : List DecisionSignalReceipt} (hplan : plan.WellFormed) :
    DecisionEngineInput.fromCompletedEvaluation evidence plan policy progress assessments receipts =
        .ok input ↔ progress.Joined plan ∧
      List.Forall₂ (fun result assessment => (assessments.find? fun assessment =>
        assessment.id = result.assessmentId) = some assessment) progress.results
        (progress.consumed assessments) ∧
      input = progress.engineInput evidence plan policy assessments receipts := by
  unfold DecisionEngineInput.fromCompletedEvaluation
  rw [bind_eq_ok]
  constructor
  · rintro ⟨bindings, hbindings, h⟩
    obtain ⟨hjoined, rfl⟩ := (EvaluationProgress.decisionBindings_iff hplan).mp hbindings
    obtain ⟨selected, hsel, h⟩ := bind_eq_ok.mp h
    cases h
    have hfound := mapM_find?_eq_ok.mp hsel
    have hcons : progress.consumed assessments = selected := filterMap_eq_of_forall₂ hfound
    rw [EvaluationProgress.engineInput, hcons]
    exact ⟨hjoined, hfound, rfl⟩
  · rintro ⟨hjoined, hfound, rfl⟩
    exact ⟨_, (EvaluationProgress.decisionBindings_iff hplan).mpr ⟨hjoined, rfl⟩,
      bind_eq_ok.mpr ⟨_, mapM_find?_eq_ok.mpr hfound, rfl⟩⟩

/-! ## Checked inputs -/

/-- Everything `validate_input` checks. -/
structure DecisionEngineInput.Accepted (library : ReviewLibrary) (input : DecisionEngineInput) :
    Prop where
  evidence_id : input.plan.evidenceId = input.evidence.id
  subject : input.plan.subject = input.evidence.subject
  quorum : input.policy.quorum = input.plan.requiredQuorum
  quorum_le : input.policy.quorum ≤ input.plan.evaluatorCount
  required : ∀ evaluator ∈ input.policy.requiredEvaluators,
    input.plan.hasEvaluatorIdentity evaluator = true
  assessments_le : input.assessments.length ≤ maxDecisionAssessments
  receipts_le : input.signalReceipts.length ≤ maxDecisionSignalReceipts
  plan_bound : ∀ assessment ∈ input.assessments,
    assessment.planId = input.plan.id ∧ assessment.subject = input.plan.subject
  ids_nodup : (input.assessments.map (·.id)).Nodup
  evaluators_nodup : (input.assessments.map (·.evaluator)).Nodup
  bindings : ∀ assessment ∈ input.assessments,
    assessment.validateBindings library input.plan input.evidence = .ok ()
  receipts_bound : ∀ receipt ∈ input.signalReceipts,
    receipt.isBound library input.plan.subject.exact input.signalNodeAttemptIds = true
  receipt_ids_nodup : (input.signalReceipts.map (·.id)).Nodup
  request_ids_nodup : (input.signalReceipts.map (·.request.request.id)).Nodup

theorem validateInput_eq_ok {library : ReviewLibrary} :
    validateInput library input = .ok () ↔ input.Accepted library := by
  unfold validateInput validateAssessments validateSignalReceipts
  constructor
  · intro h
    split at h
    · cases h
    rename_i hsubject
    split at h
    · cases h
    rename_i hpol
    split at h
    · cases h
    rename_i hassess
    split at h
    · cases h
    rename_i hrcpts
    obtain ⟨_, hvalid, h⟩ := bind_eq_ok.mp h
    split at hvalid
    · cases hvalid
    rename_i hbound
    split at hvalid
    · cases hvalid
    rename_i hdist
    split at h
    · cases h
    rename_i hsignals
    simp only [not_or, ne_eq, not_not, not_lt, Bool.not_eq_true, any_eq_false,
      Bool.or_eq_false_iff, decide_eq_false_iff_not, Bool.not_eq_false'] at *
    exact
      { evidence_id := hsubject.1, subject := hsubject.2, quorum := hpol.1
        quorum_le := hpol.2.1, required := hpol.2.2, assessments_le := hassess
        receipts_le := hrcpts, plan_bound := hbound, ids_nodup := hdist.1
        evaluators_nodup := hdist.2, bindings := forM_eq_ok.mp hvalid
        receipts_bound := hsignals.1, receipt_ids_nodup := hsignals.2.1
        request_ids_nodup := hsignals.2.2 }
  · intro h
    have hquor : ¬input.plan.evaluatorCount < input.policy.quorum := not_lt.mpr h.quorum_le
    have hreqd : ¬(input.policy.requiredEvaluators.any fun evaluator =>
        !input.plan.hasEvaluatorIdentity evaluator) = true := by
      simpa using h.required
    have hbound : ¬(input.assessments.any fun assessment =>
        assessment.planId ≠ input.plan.id || assessment.subject ≠ input.plan.subject) = true := by
      simpa using h.plan_bound
    have hsignals : ¬(input.signalReceipts.any fun receipt => !receipt.isBound library
        input.plan.subject.exact input.signalNodeAttemptIds) = true := by
      simpa using h.receipts_bound
    rw [if_neg (by simp [h.evidence_id, h.subject]),
      if_neg (not_or.mpr ⟨not_not.mpr h.quorum, not_or.mpr ⟨hquor, hreqd⟩⟩),
      if_neg (not_lt.mpr h.assessments_le), if_neg (not_lt.mpr h.receipts_le)]
    refine bind_eq_ok.mpr ⟨(), ?_, ?_⟩
    · rw [if_neg hbound, if_neg (by simp [h.ids_nodup, h.evaluators_nodup])]
      exact forM_eq_ok.mpr h.bindings
    · rw [if_neg (by simp [hsignals, h.receipt_ids_nodup, h.request_ids_nodup])]

/-! ## Reasons -/

/-- An Assessment the policy refuses. -/
def Assessment.blocks (assessment : Assessment) (policy : DecisionPolicy) : Bool :=
  match assessment.outcome with
  | .satisfied => false
  | .indeterminate =>
    assessment.evaluator ∈ policy.requiredEvaluators || policy.indeterminatePolicy = .any
  | .violated => assessment.severities.any (policy.severityThreshold ≤ ·)

/-- The required kind has passed. -/
def EvidenceManifest.passes (evidence : EvidenceManifest) (kind : FactoryKey) : Bool :=
  (evidence.item kind).any (·.outcome = .passed)

/-- Number of grounds for refusal: required evidence that has not passed, required evaluators
without an Assessment, and Assessments the policy refuses. -/
def DecisionPolicy.refusals (policy : DecisionPolicy) (evidence : EvidenceManifest)
    (assessments : List Assessment) : Nat :=
  policy.requiredEvidence.countP (fun kind => !evidence.passes kind) +
    policy.requiredEvaluators.countP (fun evaluator =>
      !assessments.any (·.evaluator = evaluator)) +
    assessments.countP (·.blocks policy)

theorem le_max?_iff {threshold : FindingSeverity} {severities : List FindingSeverity} :
    (∃ severity ∈ severities.max?, threshold ≤ severity) ↔
      ∃ severity ∈ severities, threshold ≤ severity := by
  constructor
  · rintro ⟨severity, hmax, hle⟩
    exact ⟨severity, List.max?_mem hmax, hle⟩
  · rintro ⟨severity, hmem, hle⟩
    obtain ⟨most, hmost⟩ := Option.isSome_iff_exists.mp (isSome_max?_of_mem hmem)
    exact ⟨most, hmost, hle.trans ((List.max?_eq_some_iff.mp hmost).2 severity hmem)⟩

theorem assessmentReason_isSome {assessment : Assessment} :
    (assessmentReason policy assessment).isSome = assessment.blocks policy := by
  unfold assessmentReason Assessment.blocks
  cases assessment.outcome with
  | satisfied => rfl
  | indeterminate =>
    dsimp only
    split <;> simp_all
  | violated =>
    rw [Bool.eq_iff_iff, any_eq_true]
    simp only [decide_eq_true_eq, ← le_max?_iff]
    cases assessment.severities.max? with
    | none => simp
    | some severity =>
      dsimp only
      split <;> simp_all

theorem evidenceReason_isSome {kind : FactoryKey} :
    (evidenceReason evidence.items kind).isSome = !evidence.passes kind := by
  unfold evidenceReason EvidenceManifest.passes EvidenceManifest.item
  cases evidence.items.find? kind with
  | none => rfl
  | some item =>
    simp only [Option.map_some, Option.any_some]
    cases item.outcome <;> rfl

/-- What the claimed acceptance of a candidate rests on. -/
structure DecisionPolicy.Acceptable (policy : DecisionPolicy) (evidence : EvidenceManifest)
    (assessments : List Assessment) : Prop where
  evidence : ∀ kind ∈ policy.requiredEvidence,
    ∃ item, evidence.item kind = some item ∧ item.outcome = .passed
  present : ∀ evaluator ∈ policy.requiredEvaluators,
    ∃ assessment ∈ assessments, assessment.evaluator = evaluator
  determinate : ∀ assessment ∈ assessments, assessment.outcome = .indeterminate →
    assessment.evaluator ∉ policy.requiredEvaluators ∧ policy.indeterminatePolicy ≠ .any
  tolerated : ∀ assessment ∈ assessments, assessment.outcome = .violated →
    ∀ finding ∈ assessment.findings, ∀ severity, finding.severity = some severity →
      severity < policy.severityThreshold
  quorum : policy.quorum ≤ assessments.length

theorem passes_iff {kind : FactoryKey} :
    evidence.passes kind = true ↔ ∃ item, evidence.item kind = some item ∧ item.outcome = .passed := by
  simp [EvidenceManifest.passes, Option.any_eq_true]

theorem blocks_eq_false_iff {assessment : Assessment} : assessment.blocks policy = false ↔
      (assessment.outcome = .indeterminate → assessment.evaluator ∉ policy.requiredEvaluators ∧
        policy.indeterminatePolicy ≠ .any) ∧
      (assessment.outcome = .violated → ∀ finding ∈ assessment.findings, ∀ severity,
        finding.severity = some severity → severity < policy.severityThreshold) := by
  unfold Assessment.blocks Assessment.severities
  cases assessment.outcome with
  | satisfied => simp
  | indeterminate => simp
  | violated =>
    have hfinding : ∀ finding : AssessmentFinding,
        (finding.severity.any (policy.severityThreshold ≤ ·) = false ↔
          ∀ severity, finding.severity = some severity → severity < policy.severityThreshold) := by
      intro finding
      cases finding.severity <;> simp
    simp only [any_filterMap, any_eq_false, Bool.not_eq_true, reduceCtorEq,
      IsEmpty.forall_iff, forall_const, true_and]
    exact forall₂_congr fun finding _ => hfinding finding

/-- No ground for refusal is left exactly when the candidate is acceptable. -/
theorem refusals_eq_zero_iff (hquor : policy.quorum ≤ assessments.length) :
    policy.refusals evidence assessments = 0 ↔ policy.Acceptable evidence assessments := by
  unfold DecisionPolicy.refusals
  simp only [Nat.add_eq_zero_iff, countP_eq_zero, Bool.not_eq_true, Bool.not_eq_false',
    any_eq_true, decide_eq_true_eq, passes_iff, blocks_eq_false_iff]
  constructor
  · rintro ⟨⟨hevid, hpres⟩, hblocks⟩
    exact ⟨hevid, hpres, fun a ha => (hblocks a ha).1, fun a ha => (hblocks a ha).2, hquor⟩
  · intro h
    exact ⟨⟨h.evidence, h.present⟩, fun a ha => ⟨h.determinate a ha, h.tolerated a ha⟩⟩

/-- An accepted input gives one reason for each ground for refusal. -/
theorem decisionReasons_length (hdist : (input.assessments.map (·.evaluator)).Nodup)
    (hquor : input.policy.quorum ≤ input.assessments.length) :
    (decisionReasons input).length = input.policy.refusals input.evidence input.assessments := by
  have hperm : (Table.putAll input.assessments : Table Assessment.evaluator).rows.Perm
      input.assessments := Table.putAll_rows_perm hdist
  have hcont : ∀ evaluator, (Table.putAll input.assessments : Table Assessment.evaluator).contains
      evaluator = input.assessments.any (·.evaluator = evaluator) := fun evaluator => by
    rw [Bool.eq_iff_iff, Table.contains_iff, any_eq_true]
    simp [hperm.mem_iff]
  unfold decisionReasons
  simp only [if_neg (not_lt.mpr hquor), evaluateRequiredEvidence, evaluateAssessments,
    Table.putAll_rows, length_append, length_map, length_filterMap_eq_countP,
    ← countP_eq_length_filter, evidenceReason_isSome, assessmentReason_isSome, hcont]
  rw [hperm.countP_eq, DecisionPolicy.refusals, Nat.add_assoc]

end OctaCity.Factory
