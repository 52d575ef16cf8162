/-
  OctaCity.Factory.Review.Interchange

  Decisions over a primary evaluator's Assessment and over an equal one of its
  substitute (octacity-server-factory, `decision_engine.rs`).  A policy speaks of
  evaluator identities, so a Decision can tell the two evaluators apart where the
  policy requires one of them only.
-/
import OctaCity.Factory.Review.ReasonBound
import OctaCity.Factory.Review.Substitution

namespace OctaCity.Factory

open EvaluationProgress Lib List

/-- The substitute's Assessment in place of the primary's. -/
def Assessment.exchanged (assessment original replacement : Assessment) : Assessment :=
  if assessment = original then replacement else assessment

/-- Assessments of the two evaluators of one branch with equal outcome and equal severities. -/
structure Interchange (library : ReviewLibrary) (plan : EvaluationPlan)
    (evidence : EvidenceManifest) (assessments : List Assessment)
    (primary substitute : EvaluationBranchResult) (original replacement : Assessment) : Prop where
  mem : original ∈ assessments
  original_id : original.id = primary.assessmentId
  replacement_id : replacement.id = substitute.assessmentId
  replacement_evaluator : replacement.evaluatorReference = substitute.evaluator
  fresh : ∀ assessment ∈ assessments, assessment ≠ original → assessment.id ≠ replacement.id
  bindings : replacement.validateBindings library plan evidence = .ok ()
  outcome : replacement.outcome = original.outcome
  severities : ∀ severity, severity ∈ replacement.severities ↔ severity ∈ original.severities

/-- Each result is of the Assessment it names, as its construction binds it. -/
def EvaluationProgress.Reports (progress : EvaluationProgress) (assessments : List Assessment) :
    Prop :=
  ∀ result ∈ progress.results, ∀ assessment ∈ assessments,
    assessment.id = result.assessmentId → assessment.evaluatorReference = result.evaluator

section

variable {library : ReviewLibrary} {plan : EvaluationPlan} {evidence : EvidenceManifest}
  {assessments : List Assessment} {primary substitute : EvaluationBranchResult}
  {original replacement : Assessment} {progress : EvaluationProgress}

@[simp] theorem Assessment.exchanged_self :
    original.exchanged original replacement = replacement := by
  rw [exchanged, if_pos rfl]

variable {assessment : Assessment} {result : EvaluationBranchResult} {policy : DecisionPolicy}

theorem Assessment.exchanged_of_ne (h : assessment ≠ original) :
    assessment.exchanged original replacement = assessment := by
  rw [exchanged, if_neg h]

open Assessment (exchanged_self exchanged_of_ne)

namespace Interchange

section

variable
  (hexch : Interchange library plan evidence assessments primary substitute original
    replacement) (hids : Identified Assessment.id assessments)

include hexch hids

/-- Identifiers still tell the Assessments apart. -/
theorem identified :
    Identified Assessment.id (assessments.map (·.exchanged original replacement)) := by
  intro a ha b hb h
  obtain ⟨x, hx, rfl⟩ := mem_map.mp ha
  obtain ⟨y, hy, rfl⟩ := mem_map.mp hb
  by_cases hxo : x = original
  · by_cases hyo : y = original
    · rw [hxo, hyo]
    · rw [hxo, exchanged_self, exchanged_of_ne hyo] at h
      exact absurd h.symm (hexch.fresh y hy hyo)
  · rw [exchanged_of_ne hxo] at h ⊢
    by_cases hyo : y = original
    · rw [hyo, exchanged_self] at h
      exact absurd h (hexch.fresh x hx hxo)
    · rw [exchanged_of_ne hyo] at h ⊢
      exact hids x hx y hy h

/-- The other run looks up the exchanged Assessment of each exchanged result. -/
theorem find?_exchanged (hother : result ≠ primary → result.assessmentId ≠ primary.assessmentId)
    (hfound : (assessments.find? fun assessment => assessment.id = result.assessmentId) =
      some assessment) : ((assessments.map (·.exchanged original replacement)).find? fun other =>
        other.id = (result.exchanged primary substitute).assessmentId) =
      some (assessment.exchanged original replacement) := by
  obtain ⟨hmem, hid⟩ := (find?_eq_some_of_identified hids).mp hfound
  refine (find?_eq_some_of_identified (hexch.identified hids)).mpr
    ⟨mem_map_of_mem hmem, ?_⟩
  by_cases hprim : result = primary
  · have hsame : assessment = original := hids assessment hmem original hexch.mem
      (hid.trans (hprim ▸ hexch.original_id.symm))
    rw [hsame, exchanged_self, hprim, EvaluationBranchResult.exchanged_self]
    exact hexch.replacement_id
  · have hne : assessment ≠ original := fun hsame =>
      hother hprim (hid.symm.trans (hsame ▸ hexch.original_id))
    rw [exchanged_of_ne hne, EvaluationBranchResult.exchanged_of_ne hprim]
    exact hid

theorem found_exchanged {results : List EvaluationBranchResult} {selected : List Assessment}
    (hother : ∀ result ∈ results, result ≠ primary → result.assessmentId ≠ primary.assessmentId)
    (hfound : List.Forall₂ (fun result assessment => (assessments.find? fun assessment =>
      assessment.id = result.assessmentId) = some assessment) results selected) :
    List.Forall₂ (fun result assessment =>
        ((assessments.map (·.exchanged original replacement)).find? fun assessment =>
          assessment.id = result.assessmentId) = some assessment)
      (results.map (·.exchanged primary substitute))
      (selected.map (·.exchanged original replacement)) := by
  induction hfound with
  | nil => exact .nil
  | cons hhead _ ih =>
    rw [map_cons, map_cons]
    exact .cons (hexch.find?_exchanged hids (hother _ mem_cons_self) hhead)
      (ih fun result hres => hother result (mem_cons_of_mem _ hres))

end

end Interchange

theorem Assessment.validateBindings_bound
    (h : assessment.validateBindings library plan evidence = .ok ()) :
    assessment.planId = plan.id ∧ assessment.subject = plan.subject := by
  unfold validateBindings at h
  split at h
  · cases h
  · rename_i hbound
    simp only [not_or, not_not] at hbound
    exact ⟨hbound.1, hbound.2.1⟩

/-- A completed join of a run whose input the engine accepts, one of whose results is exchanged
with that of a declared substitute. -/
structure ExchangedJoin (library : ReviewLibrary) (plan : EvaluationPlan) (policy : DecisionPolicy)
    (evidence : EvidenceManifest) (assessments : List Assessment)
    (primary substitute : EvaluationBranchResult) (original replacement : Assessment)
    (progress : EvaluationProgress) (receipts : List DecisionSignalReceipt) : Prop where
  wellFormed : plan.WellFormed
  traced : progress.Traced plan
  joined : progress.Joined plan
  substitutes : plan.Substitutes primary substitute
  mem : primary ∈ progress.results
  identified : Identified Assessment.id assessments
  reports : progress.Reports assessments
  exchange : Interchange library plan evidence assessments primary substitute original replacement
  found : List.Forall₂ (fun result assessment => (assessments.find? fun assessment =>
    assessment.id = result.assessmentId) = some assessment) progress.results
    (progress.consumed assessments)
  accepted : (progress.engineInput evidence plan policy assessments receipts).Accepted library

namespace ExchangedJoin

variable {policy : DecisionPolicy} {receipts : List DecisionSignalReceipt}

section

variable
  (h : ExchangedJoin library plan policy evidence assessments primary substitute original
    replacement progress receipts)

include h

theorem other_id (hres : result ∈ progress.results) (hne : result ≠ primary) :
    result.assessmentId ≠ primary.assessmentId := fun hsame =>
  hne (inj_on_of_nodup_map h.joined.ids_nodup hres h.mem hsame)

theorem consumed_exchanged : (progress.exchanged primary substitute).consumed
        (assessments.map (·.exchanged original replacement)) =
      (progress.consumed assessments).map (·.exchanged original replacement) := by
  have hfound := h.exchange.found_exchanged h.identified
    (fun result hres => h.other_id hres) h.found
  rw [← exchanged_results] at hfound
  exact filterMap_eq_of_forall₂ hfound

/-- A selected Assessment other than the primary's is of another branch's evaluator. -/
theorem evaluator_ne (hmem : assessment ∈ progress.consumed assessments)
    (hne : assessment ≠ original) : assessment.evaluator ≠ replacement.evaluator := by
  obtain ⟨result, hres, hfound⟩ := mem_filterMap.mp hmem
  have hid : assessment.id = result.assessmentId := by simpa using List.find?_some hfound
  have hsupplied := mem_of_find?_eq_some hfound
  have hother : result ≠ primary := by
    rintro rfl
    exact hne (h.identified _ hsupplied _ h.exchange.mem (hid.trans h.exchange.original_id.symm))
  obtain ⟨branch, hbr, hkey, hnamed⟩ := h.traced.result_planned hres
  obtain ⟨branch', hbr', hkey', -, hsubst⟩ := h.substitutes.branch
  have hreported := h.reports result hres assessment hsupplied hid
  intro hsame
  have hident : result.evaluator.identity = substitute.evaluator.identity := by
    rw [← hreported, ← h.exchange.replacement_evaluator]
    exact hsame
  have hbranches : branch = branch' := h.wellFormed.branch_eq hbr hbr' hnamed
    (mem_cons_of_mem _ hsubst) hident
  exact hother (h.traced.result_eq hres h.mem
    (hkey.trans ((congrArg ReviewBranch.key hbranches).trans hkey'.symm)))

/-- The two Assessments are of two evaluators. -/
theorem evaluators_ne : original.evaluator ≠ replacement.evaluator := by
  obtain ⟨branch, hbr, -, hprim, hsubst⟩ := h.substitutes.branch
  have horig : original.evaluatorReference = branch.evaluator :=
    (h.reports primary h.mem original h.exchange.mem h.exchange.original_id).trans hprim
  intro hsame
  apply h.wellFormed.evaluator_ne hbr hsubst
  rw [← horig, ← h.exchange.replacement_evaluator]
  exact hsame.symm

/-- The primary's Assessment is among the selected ones. -/
theorem original_mem : original ∈ progress.consumed assessments :=
  mem_filterMap.mpr ⟨primary, h.mem, (find?_eq_some_of_identified h.identified).mpr
    ⟨h.exchange.mem, h.exchange.original_id⟩⟩

theorem fresh_id (hres : result ∈ progress.results) (hne : result ≠ primary) :
    result.assessmentId ≠ substitute.assessmentId := by
  have hids := consumed_ids h.found
  have hid : result.assessmentId ∈ (progress.consumed assessments).map Assessment.id :=
    hids ▸ mem_map_of_mem hres
  obtain ⟨assessment, hmem, hsame⟩ := mem_map.mp hid
  have hother : assessment ≠ original := by
    rintro rfl
    exact h.other_id hres hne (hsame.symm.trans h.exchange.original_id)
  rw [← hsame, ← h.exchange.replacement_id]
  exact h.exchange.fresh assessment (mem_of_mem_consumed hmem) hother

/-- The other join is complete. -/
theorem joined_exchanged : (progress.exchanged primary substitute).Joined plan :=
  h.joined.exchanged fun _ hres hne => h.fresh_id hres hne

/-- The engine accepts the other join with receipts of its own nodes. -/
theorem accepted_exchanged {receipts' : List DecisionSignalReceipt}
    (hlimit : receipts'.length ≤ maxDecisionSignalReceipts)
    (hrcpts : validateSignalReceipts library plan receipts'
      ((progress.exchanged primary substitute).results.map (·.node)) = .ok ()) :
    ((progress.exchanged primary substitute).engineInput evidence plan policy
      (assessments.map (·.exchanged original replacement)) receipts').Accepted library := by
  have hacc := h.accepted
  have hsignals : (∀ receipt ∈ receipts', receipt.isBound library plan.subject.exact
      ((progress.exchanged primary substitute).results.map (·.node)) = true) ∧
      (receipts'.map (·.id)).Nodup ∧ (receipts'.map (·.request.request.id)).Nodup := by
    unfold validateSignalReceipts at hrcpts
    split at hrcpts
    · cases hrcpts
    · rename_i hvalid
      simpa using hvalid
  have hmems : ∀ assessment ∈ (progress.consumed assessments).map
      (·.exchanged original replacement),
      assessment.validateBindings library plan evidence = .ok () := by
    intro assessment hmem
    obtain ⟨before, hbef, rfl⟩ := mem_map.mp hmem
    by_cases hsame : before = original
    · rw [hsame, exchanged_self]
      exact h.exchange.bindings
    · rw [exchanged_of_ne hsame]
      exact hacc.bindings before hbef
  have hids : ((progress.consumed assessments).map (·.exchanged original replacement)).map
      Assessment.id = (progress.exchanged primary substitute).results.map (·.assessmentId) := by
    have hfound := h.exchange.found_exchanged h.identified
      (fun result hres => h.other_id hres) h.found
    rw [← exchanged_results] at hfound
    exact consumed_ids hfound
  have hevaluators : (((progress.consumed assessments).map (·.exchanged original replacement)).map
      Assessment.evaluator).Nodup := by
    rw [map_map]
    have hdist : ((progress.consumed assessments).map Assessment.evaluator).Nodup :=
      hacc.evaluators_nodup
    refine (hdist.of_map _).map_on fun a ha b hb hsame => ?_
    simp only [Function.comp_apply] at hsame
    by_cases hao : a = original
    · by_cases hbo : b = original
      · rw [hao, hbo]
      · rw [hao, exchanged_self, exchanged_of_ne hbo] at hsame
        exact absurd hsame.symm (h.evaluator_ne hb hbo)
    · rw [exchanged_of_ne hao] at hsame
      by_cases hbo : b = original
      · rw [hbo, exchanged_self] at hsame
        exact absurd hsame (h.evaluator_ne ha hao)
      · rw [exchanged_of_ne hbo] at hsame
        exact inj_on_of_nodup_map hdist ha hb hsame
  unfold EvaluationProgress.engineInput
  rw [h.consumed_exchanged]
  exact
    { evidence_id := hacc.evidence_id, subject := hacc.subject
      quorum := hacc.quorum, quorum_le := hacc.quorum_le
      required := hacc.required
      assessments_le := (length_map _).trans_le hacc.assessments_le
      receipts_le := hlimit
      plan_bound := fun assessment hmem => Assessment.validateBindings_bound (hmems assessment hmem)
      ids_nodup := hids ▸ h.joined_exchanged.ids_nodup
      evaluators_nodup := hevaluators, bindings := hmems
      receipts_bound := hsignals.1, receipt_ids_nodup := hsignals.2.1
      request_ids_nodup := hsignals.2.2 }

end

end ExchangedJoin

/-! ## Outcomes -/

/-- The policy that does not require the evaluators. -/
def DecisionPolicy.without (policy : DecisionPolicy) (evaluators : List FactoryKey) :
    DecisionPolicy :=
  { policy with
    requiredEvaluators := policy.requiredEvaluators.filter fun evaluator => evaluator ∉ evaluators }

theorem mem_without {evaluators : List FactoryKey}
    {evaluator : FactoryKey} : evaluator ∈ (policy.without evaluators).requiredEvaluators ↔
      evaluator ∈ policy.requiredEvaluators ∧ evaluator ∉ evaluators := by
  simp [DecisionPolicy.without]

/-- What the policy asks of one evaluator's Assessment and of the evaluator left out. -/
theorem acceptable_iff_without {selected : List Assessment}
    {absent : FactoryKey} (hmem : assessment ∈ selected)
    (hother : ∀ other ∈ selected, other ≠ assessment →
      other.evaluator ≠ assessment.evaluator ∧ other.evaluator ≠ absent)
    (hne : assessment.evaluator ≠ absent) : policy.Acceptable evidence selected ↔
      (policy.without [assessment.evaluator, absent]).Acceptable evidence selected ∧
        absent ∉ policy.requiredEvaluators ∧ (assessment.outcome = .indeterminate →
          assessment.evaluator ∉ policy.requiredEvaluators) := by
  have hnot : ∀ other ∈ selected, other.evaluator ≠ absent := by
    intro other hsel
    by_cases hsame : other = assessment
    · exact hsame ▸ hne
    · exact (hother other hsel hsame).2
  constructor
  · intro h
    refine ⟨⟨h.evidence, fun evaluator hreqd => ?_, fun other hsel hout => ?_,
      h.tolerated, h.quorum⟩, fun hreqd => ?_, fun hout => (h.determinate _ hmem hout).1⟩
    · exact h.present evaluator (mem_without.mp hreqd).1
    · obtain ⟨hfree, hany⟩ := h.determinate other hsel hout
      exact ⟨fun hreqd => hfree (mem_without.mp hreqd).1, hany⟩
    · obtain ⟨other, hsel, hsame⟩ := h.present absent hreqd
      exact hnot other hsel hsame
  · rintro ⟨h, habsent, hdeterminate⟩
    refine ⟨h.evidence, fun evaluator hreqd => ?_, fun other hsel hout => ?_,
      h.tolerated, h.quorum⟩
    · by_cases hsame : assessment.evaluator = evaluator
      · exact ⟨assessment, hmem, hsame⟩
      · refine h.present evaluator (mem_without.mpr ⟨hreqd, ?_⟩)
        have hnotAbsent : evaluator ≠ absent := fun h => habsent (h ▸ hreqd)
        simp [Ne.symm hsame, hnotAbsent]
    · obtain ⟨hfree, hany⟩ := h.determinate other hsel hout
      refine ⟨fun hreqd => ?_, hany⟩
      by_cases hsame : other = assessment
      · exact hdeterminate (hsame ▸ hout) (hsame ▸ hreqd)
      · obtain ⟨hfirst, hsnd⟩ := hother other hsel hsame
        exact hfree (mem_without.mpr ⟨hreqd, by simp [hfirst, hsnd]⟩)

/-- What tolerating a violation says of its severities. -/
theorem tolerated_iff :
    (∀ finding ∈ assessment.findings, ∀ severity, finding.severity = some severity →
        severity < policy.severityThreshold) ↔
      ∀ severity ∈ assessment.severities, severity < policy.severityThreshold := by
  simp only [Assessment.severities, mem_filterMap]
  exact ⟨fun h severity ⟨finding, hfinding, hseverity⟩ => h finding hfinding severity hseverity,
    fun h finding hfinding severity hseverity => h severity ⟨finding, hfinding, hseverity⟩⟩

/-- A policy that requires neither evaluator does not tell the two runs apart. -/
theorem Interchange.acceptable_without (hexch : Interchange library plan evidence assessments
      primary substitute original replacement)
    (horig : original.evaluator ∉ policy.requiredEvaluators)
    (hrepl : replacement.evaluator ∉ policy.requiredEvaluators)
    (selected : List Assessment) :
    policy.Acceptable evidence (selected.map (·.exchanged original replacement)) ↔
      policy.Acceptable evidence selected := by
  have hevaluator : ∀ assessment : Assessment, ∀ evaluator ∈ policy.requiredEvaluators,
      ((assessment.exchanged original replacement).evaluator = evaluator ↔
        assessment.evaluator = evaluator) := by
    intro assessment evaluator hreqd
    by_cases hsame : assessment = original
    · rw [hsame, exchanged_self]
      exact iff_of_false (fun h => hrepl (h ▸ hreqd)) fun h => horig (h ▸ hreqd)
    · rw [exchanged_of_ne hsame]
  have hoptional : ∀ assessment : Assessment,
      ((assessment.exchanged original replacement).evaluator ∉ policy.requiredEvaluators ↔
        assessment.evaluator ∉ policy.requiredEvaluators) := by
    intro assessment
    by_cases hsame : assessment = original
    · rw [hsame, exchanged_self]
      exact iff_of_true hrepl horig
    · rw [exchanged_of_ne hsame]
  have hout : ∀ assessment : Assessment,
      (assessment.exchanged original replacement).outcome = assessment.outcome := by
    intro assessment
    by_cases hsame : assessment = original
    · rw [hsame, exchanged_self, hexch.outcome]
    · rw [exchanged_of_ne hsame]
  have hseverities : ∀ (assessment : Assessment) severity,
      severity ∈ (assessment.exchanged original replacement).severities ↔
        severity ∈ assessment.severities := by
    intro assessment severity
    by_cases hsame : assessment = original
    · rw [hsame, exchanged_self, hexch.severities]
    · rw [exchanged_of_ne hsame]
  constructor
  · intro h
    refine ⟨h.evidence, fun evaluator hreqd => ?_, fun assessment hmem hindeterminate => ?_,
      fun assessment hmem hviolated => ?_, h.quorum.trans_eq (length_map _)⟩
    · obtain ⟨_, hmem, hsame⟩ := h.present evaluator hreqd
      obtain ⟨assessment, hassessment, rfl⟩ := mem_map.mp hmem
      exact ⟨assessment, hassessment, (hevaluator assessment evaluator hreqd).mp hsame⟩
    · rw [← hoptional]
      exact h.determinate _ (mem_map_of_mem hmem) ((hout assessment).trans hindeterminate)
    · have htolerated := h.tolerated _ (mem_map_of_mem hmem)
        ((hout assessment).trans hviolated)
      simp only [tolerated_iff, hseverities] at htolerated ⊢
      exact htolerated
  · intro h
    refine ⟨h.evidence, fun evaluator hreqd => ?_, fun assessment hmem hindeterminate => ?_,
      fun assessment hmem hviolated => ?_, h.quorum.trans_eq (length_map _).symm⟩
    · obtain ⟨assessment, hassessment, hsame⟩ := h.present evaluator hreqd
      exact ⟨_, mem_map_of_mem hassessment,
        (hevaluator assessment evaluator hreqd).mpr hsame⟩
    · obtain ⟨before, hbef, rfl⟩ := mem_map.mp hmem
      rw [hoptional]
      exact h.determinate before hbef ((hout before).symm.trans hindeterminate)
    · obtain ⟨before, hbef, rfl⟩ := mem_map.mp hmem
      have htolerated := h.tolerated before hbef ((hout before).symm.trans hviolated)
      simp only [tolerated_iff, hseverities] at htolerated ⊢
      exact htolerated

theorem without_comm (policy : DecisionPolicy) (first second : FactoryKey) :
    policy.without [second, first] = policy.without [first, second] := by
  unfold DecisionPolicy.without
  congr 1
  refine filter_congr fun evaluator _ => ?_
  simp [and_comm]

/-- Both runs are acceptable, or neither is, unless the policy requires exactly one of the two
evaluators and nothing else stands against acceptance. -/
theorem ExchangedJoin.acceptable_iff {receipts : List DecisionSignalReceipt}
    (h : ExchangedJoin library plan policy evidence assessments primary substitute original
      replacement progress receipts) : (policy.Acceptable evidence (progress.consumed assessments) ↔
        policy.Acceptable evidence ((progress.consumed assessments).map
          (·.exchanged original replacement))) ↔ (original.evaluator ∈ policy.requiredEvaluators ↔
        replacement.evaluator ∈ policy.requiredEvaluators) ∨ original.outcome = .indeterminate ∨
      ¬(policy.without [original.evaluator, replacement.evaluator]).Acceptable evidence
        (progress.consumed assessments) := by
  have hdist : ((progress.consumed assessments).map Assessment.evaluator).Nodup :=
    h.accepted.evaluators_nodup
  have hothers : ∀ other ∈ progress.consumed assessments, other ≠ original →
      other.evaluator ≠ original.evaluator ∧ other.evaluator ≠ replacement.evaluator :=
    fun other hother hsame => ⟨fun heq =>
      hsame (inj_on_of_nodup_map hdist hother h.original_mem heq), h.evaluator_ne hother hsame⟩
  have hne := h.evaluators_ne
  have hfirst : policy.Acceptable evidence (progress.consumed assessments) ↔ _ :=
    acceptable_iff_without h.original_mem hothers hne
  have hmem : replacement ∈ (progress.consumed assessments).map
      (·.exchanged original replacement) :=
    mem_map.mpr ⟨original, h.original_mem, exchanged_self⟩
  have hothers' : ∀ other ∈ (progress.consumed assessments).map (·.exchanged original replacement),
      other ≠ replacement →
      other.evaluator ≠ replacement.evaluator ∧ other.evaluator ≠ original.evaluator := by
    intro other hother hdiffers
    obtain ⟨before, hbef, rfl⟩ := mem_map.mp hother
    by_cases hsame : before = original
    · exact absurd (hsame ▸ exchanged_self) hdiffers
    · rw [exchanged_of_ne hsame]
      exact (hothers before hbef hsame).symm
  have hsnd : policy.Acceptable evidence ((progress.consumed assessments).map
      (·.exchanged original replacement)) ↔ _ :=
    acceptable_iff_without hmem hothers' hne.symm
  have hwithout : (policy.without [original.evaluator, replacement.evaluator]).Acceptable evidence
      ((progress.consumed assessments).map (·.exchanged original replacement)) ↔ _ :=
    h.exchange.acceptable_without (by simp [mem_without]) (by simp [mem_without])
      (progress.consumed assessments)
  rw [without_comm, hwithout, h.exchange.outcome] at hsnd
  rw [hfirst, hsnd]
  tauto

/-- The run with a declared substitute's result completes the same join and is checked alike.  The
two Decisions have the same outcome unless the policy requires exactly one of the two evaluators,
the Assessments are determinate and nothing else stands against acceptance. -/
theorem substitute_outcome_iff {wire : EvaluationPlanWire}
    (hplan : EvaluationPlan.fromParts wire = .ok plan) {version : Nat}
    {definition : DecisionPolicyDefinition} {policy : DecisionPolicy}
    (hpol : DecisionPolicy.tryNew library version definition = .ok policy)
    {planned : EvaluationProgress} (hplanned : EvaluationProgress.fromPlan plan = .ok planned)
    {steps : List ProgressStep} (hrun : planned.run steps = .ok progress)
    {receipts : List DecisionSignalReceipt} {input : DecisionEngineInput}
    (hinput : DecisionEngineInput.fromCompletedEvaluation evidence plan policy progress assessments
      receipts = .ok input) (hvalid : validateInput library input = .ok ())
    (hids : Identified Assessment.id assessments) (hreports : progress.Reports assessments)
    (hsubsts : plan.Substitutes primary substitute) (hprim : primary ∈ progress.results)
    (hexch : Interchange library plan evidence assessments primary substitute original
      replacement) {receipts' : List DecisionSignalReceipt}
    (hlimit : receipts'.length ≤ maxDecisionSignalReceipts)
    (hrcpts : validateSignalReceipts library plan receipts'
      ((progress.exchanged primary substitute).results.map (·.node)) = .ok ()) :
    ∃ progress' bindings' input',
      planned.run (steps.map (·.exchanged primary substitute)) = .ok progress' ∧
      progress'.decisionBindings plan = .ok bindings' ∧
      DecisionEngineInput.fromCompletedEvaluation evidence plan policy progress'
        (assessments.map (·.exchanged original replacement)) receipts' = .ok input' ∧
      validateInput library input' = .ok () ∧ ∀ id id' decision decision',
        decideCompletedJoin library id evidence plan policy progress assessments receipts =
          .ok decision → decideCompletedJoin library id' evidence plan policy progress'
          (assessments.map (·.exchanged original replacement)) receipts' = .ok decision' →
        (decision.outcome = decision'.outcome ↔ (original.evaluator ∈ policy.requiredEvaluators ↔
            replacement.evaluator ∈ policy.requiredEvaluators) ∨ original.outcome = .indeterminate ∨
          ¬(policy.without [original.evaluator, replacement.evaluator]).Acceptable evidence
            (progress.consumed assessments)) := by
  have hshape := EvaluationPlan.fromParts_wellFormed hplan
  have htraced := fromPlan_traced hshape hplanned
  obtain ⟨hjoined, hfound, hengine⟩ := (fromCompletedEvaluation_eq_ok hshape).mp hinput
  have hjoin : ExchangedJoin library plan policy evidence assessments primary substitute original
      replacement progress receipts :=
    { wellFormed := hshape, traced := run_traced htraced hrun, joined := hjoined
      substitutes := hsubsts, mem := hprim, identified := hids, reports := hreports
      exchange := hexch, found := hfound
      accepted := hengine ▸ validateInput_eq_ok.mp hvalid }
  have hrun' := run_exchanged hshape htraced hsubsts hrun
  rw [fromPlan_exchanged hshape hplanned] at hrun'
  have hinput' : DecisionEngineInput.fromCompletedEvaluation evidence plan policy
      (progress.exchanged primary substitute) (assessments.map (·.exchanged original replacement))
      receipts' = .ok ((progress.exchanged primary substitute).engineInput evidence plan policy
        (assessments.map (·.exchanged original replacement)) receipts') := by
    refine (fromCompletedEvaluation_eq_ok hshape).mpr ⟨hjoin.joined_exchanged, ?_, rfl⟩
    rw [hjoin.consumed_exchanged, exchanged_results]
    exact hexch.found_exchanged hids (fun result hres => hjoin.other_id hres) hfound
  have hvalid' := validateInput_eq_ok.mpr (hjoin.accepted_exchanged hlimit hrcpts)
  refine ⟨_, _, _, hrun', (decisionBindings_iff hshape).mpr
    ⟨hjoin.joined_exchanged, rfl⟩, hinput', hvalid', fun id id' decision decision' hdec
    hdec' => ?_⟩
  have hfailure := DecisionPolicy.tryNew_failureOutcome hpol
  obtain ⟨haccept, hrefuse⟩ := decideCompletedJoin_outcome hshape hfailure hinput hvalid hdec
  obtain ⟨haccept', hrefuse'⟩ :=
    decideCompletedJoin_outcome hshape hfailure hinput' hvalid' hdec'
  rw [hjoin.consumed_exchanged] at haccept' hrefuse'
  rw [← hjoin.acceptable_iff, ← haccept, ← haccept']
  rw [← haccept] at hrefuse
  rw [← haccept'] at hrefuse'
  constructor
  · exact fun hsame => by rw [hsame]
  · intro hsame
    by_cases hdecd : decision.outcome = .accept
    · rw [hdecd, hsame.mp hdecd]
    · rw [hrefuse hdecd, hrefuse' (mt hsame.mpr hdecd)]

end

/-! ## A policy that requires the primary evaluator -/

namespace SubstituteSample

open JoinSample (key reference subject artifact evidence pack branch keeping)

def wire : EvaluationPlanWire :=
  { JoinSample.wire with branches := [branch 0, branch 1], requiredQuorum := 2 }

def plan : EvaluationPlan :=
  { JoinSample.plan with branches := ⟨[branch 0, branch 1], by decide⟩, requiredQuorum := 2 }

theorem fromParts_wire : EvaluationPlan.fromParts wire = .ok plan := rfl

def definition : DecisionPolicyDefinition :=
  { requiredEvidence := [key 'k' 0], requiredEvaluators := [key 'p' 0], quorum := 2
    severityThreshold := .low, indeterminatePolicy := .requiredOnly, failureOutcome := .rework }

variable (library : ReviewLibrary)

def policy : DecisionPolicy :=
  { version := 1, digest := digestPolicy library definition, requiredEvidence := [key 'k' 0]
    requiredEvaluators := [key 'p' 0], quorum := 2, severityThreshold := .low
    indeterminatePolicy := .requiredOnly, failureOutcome := .rework }

theorem tryNew_definition : DecisionPolicy.tryNew library 1 definition = .ok (policy library) := rfl

/-- What an evaluator of branch `i` is satisfied with. -/
def assessment (family : Char) (i id : Nat) : Assessment :=
  { id := ⟨id + 1, id.succ_ne_zero⟩, planId := plan.id, subject, outcome := .satisfied
    summary := ⟨1, subject, ⟨"summary"⟩, ⟨7⟩, ⟨7⟩⟩, findings := []
    provenance :=
      { planDigest := plan.digest library, evidenceId := evidence.id
        criterionPacks := [reference 'c' 0], evaluator := reference family i
        model := reference 'm' 0, promptDigest := ⟨7⟩, result := artifact 2, record := artifact 3 } }

def result (family : Char) (i id : Nat) (substituted : Bool) : EvaluationBranchResult :=
  { branch := key 'b' i, evaluator := reference family i, assessmentId := ⟨id + 1, id.succ_ne_zero⟩
    nodeAttemptId := .ofSucc i, factoryRunId := .ofSucc 0, inputDigest := ⟨7⟩
    contextManifestId := .ofSucc 0, contextDigest := ⟨7⟩, substituted }

def primary : EvaluationBranchResult := result 'p' 0 0 false
def substitute : EvaluationBranchResult := result 's' 0 1 true
def other : EvaluationBranchResult := result 'p' 1 2 false

theorem forall_pair {α : Type} {a b : α} {P : α → Prop} (h : P a ∧ P b) : ∀ x ∈ [a, b], P x := by
  simpa using h

/-- The join of both branches. -/
def progress (state otherState : EvaluationBranchState)
    (accepted otherAccepted : Option EvaluationBranchResult) : EvaluationProgress :=
  { branches :=
      ⟨[⟨key 'b' 0, true, state, reference 'p' 0, [reference 's' 0], accepted⟩,
        ⟨key 'b' 1, true, otherState, reference 'p' 1, [reference 's' 1], otherAccepted⟩],
        pairwise_pair.mpr (show key 'b' 0 < key 'b' 1 by decide)⟩
    requiredQuorum := 2 }

/-- Either branch runs and records its result. -/
def steps (accepted : EvaluationBranchResult) : List ProgressStep :=
  [accepted, other].flatMap fun result =>
    [.advance result.branch .attemptCreated, .advance result.branch .buildActive,
      .advance result.branch .resultPending, .record result]

def start : EvaluationProgress := progress .pending .pending none none

theorem fromPlan_plan : EvaluationProgress.fromPlan plan = .ok start := rfl

theorem validateBindings {family : Char} {i id : Nat}
    (hnamed : plan.hasEvaluator (reference family i) = true) :
    (assessment library family i id).validateBindings library plan evidence = .ok () :=
  Assessment.validateBindings_eq_ok.mpr ⟨⟨rfl, rfl, rfl, rfl, rfl, rfl, hnamed⟩, rfl, rfl⟩

/-- The join with the first branch by its primary evaluator, or by the substitute. -/
def joined (substituted : Bool) : EvaluationProgress :=
  if substituted then progress .substituted .completed (some substitute) (some other)
  else progress .completed .completed (some primary) (some other)

def supplied (substituted : Bool) : List Assessment :=
  [if substituted then assessment library 's' 0 1 else assessment library 'p' 0 0,
    assessment library 'p' 1 2]

def input (substituted : Bool) : DecisionEngineInput :=
  (joined substituted).engineInput evidence plan (policy library) (supplied library substituted) []

theorem run_joined (substituted : Bool) :
    start.run (steps (if substituted then substitute else primary)) = .ok (joined substituted) := by
  cases substituted <;> rfl

theorem fromCompleted (substituted : Bool) :
    DecisionEngineInput.fromCompletedEvaluation evidence plan (policy library) (joined substituted)
      (supplied library substituted) [] = .ok (input library substituted) := by
  cases substituted <;> rfl

/-- The engine accepts the join of either evaluator. -/
theorem validateInput_input (substituted : Bool) :
    validateInput library (input library substituted) = .ok () := by
  have hconsumed : (joined substituted).consumed (supplied library substituted) =
      supplied library substituted := by
    cases substituted <;> rfl
  refine validateInput_eq_ok.mpr ?_
  unfold input EvaluationProgress.engineInput
  rw [hconsumed]
  exact
    { evidence_id := rfl, subject := rfl, quorum := rfl
      quorum_le := (by decide : 2 ≤ plan.evaluatorCount)
      required := fun evaluator h => by rw [mem_singleton.mp h]; rfl
      assessments_le := (by decide : 2 ≤ maxDecisionAssessments)
      receipts_le := Nat.zero_le _
      plan_bound := forall_pair ⟨by cases substituted <;> exact ⟨rfl, rfl⟩, rfl, rfl⟩
      ids_nodup := by cases substituted <;> simp [supplied, assessment]
      evaluators_nodup := pairwise_pair.mpr (by cases substituted <;> exact ne_of_beq_false rfl)
      bindings := forall_pair ⟨by cases substituted <;> exact validateBindings library rfl,
        validateBindings library rfl⟩
      receipts_bound := fun _ h => absurd h not_mem_nil
      receipt_ids_nodup := nodup_nil, request_ids_nodup := nodup_nil }

theorem refusals_eq (substituted : Bool) : (policy library).refusals evidence
    ((joined substituted).consumed (supplied library substituted)) = substituted.toNat := by
  cases substituted <;> rfl

/-- Each run is decided, and only the primary's is accepted. -/
theorem decided (substituted : Bool) (id : DecisionId) : ∃ decision,
    decideCompletedJoin library id evidence plan (policy library) (joined substituted)
      (supplied library substituted) [] = .ok decision ∧
    decision.outcome = if substituted then .rework else .accept := by
  have hplan := EvaluationPlan.fromParts_wellFormed fromParts_wire
  have hvalid := validateInput_input library substituted
  have hrefusals := refusals_eq library substituted
  obtain ⟨decision, hdec⟩ : ∃ decision, decideCompletedJoin library id evidence plan
      (policy library) (joined substituted) (supplied library substituted) [] = .ok decision :=
    ⟨_, (decideCompletedJoin_eq_ok_iff hplan (fromCompleted library substituted) hvalid).mpr
      ⟨hrefusals.trans_le ((Bool.toNat_le _).trans (by decide)), rfl⟩⟩
  obtain ⟨haccept, hrefuse⟩ := decideCompletedJoin_outcome hplan
    (DecisionPolicy.tryNew_failureOutcome (tryNew_definition library))
    (fromCompleted library substituted) hvalid hdec
  rw [← refusals_eq_zero_iff (by cases substituted <;> exact Nat.le_refl 2), hrefusals]
    at haccept hrefuse
  refine ⟨decision, hdec, ?_⟩
  cases substituted
  · exact haccept.mpr rfl
  · exact hrefuse Nat.one_ne_zero

theorem substitutes : plan.Substitutes primary substitute where
  branch := ⟨branch 0, mem_cons_self, rfl, rfl, mem_singleton_self _⟩
  same_branch := rfl
  primary_unsubstituted := rfl
  substituted := rfl

theorem interchange : Interchange library plan evidence (supplied library false) primary substitute
    (assessment library 'p' 0 0) (assessment library 's' 0 1) where
  mem := mem_cons_self
  original_id := rfl
  replacement_id := rfl
  replacement_evaluator := rfl
  fresh := forall_pair ⟨fun hne => absurd rfl hne, fun _ h => by cases h⟩
  bindings := validateBindings library rfl
  outcome := rfl
  severities := fun _ => Iff.rfl

theorem identified : Identified Assessment.id (supplied library false) :=
  forall_pair ⟨forall_pair ⟨fun _ => rfl, fun h => (by cases h)⟩,
    forall_pair ⟨fun h => (by cases h), fun _ => rfl⟩⟩

theorem reports : (joined false).Reports (supplied library false) :=
  forall_pair ⟨forall_pair ⟨fun _ => rfl, fun h => (by cases h)⟩,
    forall_pair ⟨fun h => (by cases h), fun _ => rfl⟩⟩

theorem steps_exchanged :
    (steps primary).map (·.exchanged primary substitute) = steps substitute := by
  simp [steps, ProgressStep.exchanged, EvaluationBranchResult.exchanged, primary, substitute, other,
    result]

theorem supplied_exchanged : (supplied library false).map
    (·.exchanged (assessment library 'p' 0 0) (assessment library 's' 0 1)) =
      supplied library true := by
  simp [supplied, Assessment.exchanged, assessment]

end SubstituteSample

open SubstituteSample
open JoinSample (evidence keeping)

/-- The policy names the primary evaluator alone, so the outcomes differ. -/
theorem substitute_outcome_iff_sample : ∃ progress' bindings' input',
      start.run ((steps primary).map (·.exchanged primary substitute)) = .ok progress' ∧
      progress'.decisionBindings plan = .ok bindings' ∧
      DecisionEngineInput.fromCompletedEvaluation evidence plan (policy keeping) progress'
        ((supplied keeping false).map
          (·.exchanged (assessment keeping 'p' 0 0) (assessment keeping 's' 0 1))) [] = .ok input' ∧
      validateInput keeping input' = .ok () ∧ ∀ id id' decision decision',
        decideCompletedJoin keeping id evidence plan (policy keeping) (joined false)
          (supplied keeping false) [] = .ok decision →
        decideCompletedJoin keeping id' evidence plan (policy keeping) progress'
          ((supplied keeping false).map
            (·.exchanged (assessment keeping 'p' 0 0) (assessment keeping 's' 0 1))) [] =
              .ok decision' → decision.outcome ≠ decision'.outcome := by
  obtain ⟨progress', bindings', input', hrun, hbindings, hinput, hvalid, houtcome⟩ :=
    substitute_outcome_iff fromParts_wire (tryNew_definition _) fromPlan_plan (run_joined false)
      (fromCompleted _ false) (validateInput_input _ false) (identified _) (reports _) substitutes
      mem_cons_self (interchange keeping) (show ([] : List DecisionSignalReceipt).length ≤ _ from
        Nat.zero_le _) rfl
  refine ⟨progress', bindings', input', hrun, hbindings, hinput, hvalid,
    fun id id' decision decision' hdec hdec' hsame => ?_⟩
  obtain hnamed | hunclear | hrefused := (houtcome id id' decision decision' hdec hdec').mp hsame
  · exact absurd hnamed (by decide)
  · cases hunclear
  · exact hrefused ((refusals_eq_zero_iff (Nat.le_refl 2)).mp rfl)

/-- A policy that requires the primary by its identity accepts its join and returns the substitute's
for rework. -/
theorem substitute_not_transparent :
    ¬∀ (library : ReviewLibrary) (wire : EvaluationPlanWire) (plan : EvaluationPlan) (version : Nat)
      (definition : DecisionPolicyDefinition) (policy : DecisionPolicy)
      (evidence : EvidenceManifest) (planned progress progress' : EvaluationProgress)
      (steps : List ProgressStep) (assessments : List Assessment)
      (primary substitute : EvaluationBranchResult) (original replacement : Assessment)
      (id : DecisionId) (decision decision' : Decision), EvaluationPlan.fromParts wire = .ok plan →
      DecisionPolicy.tryNew library version definition = .ok policy →
      EvaluationProgress.fromPlan plan = .ok planned → planned.run steps = .ok progress →
      plan.Substitutes primary substitute → primary ∈ progress.results →
      Interchange library plan evidence assessments primary substitute original replacement →
      planned.run (steps.map (·.exchanged primary substitute)) = .ok progress' →
      decideCompletedJoin library id evidence plan policy progress assessments [] = .ok decision →
      decideCompletedJoin library id evidence plan policy progress'
        (assessments.map (·.exchanged original replacement)) [] = .ok decision' →
      decision.outcome = decision'.outcome := by
  intro hclaim
  obtain ⟨first, hfirst, haccept⟩ := decided keeping false ⟨9, by decide⟩
  obtain ⟨second, hsnd, hrework⟩ := decided keeping true ⟨9, by decide⟩
  rw [← supplied_exchanged] at hsnd
  have hrun := run_joined true
  rw [if_pos rfl, ← steps_exchanged] at hrun
  have hsame := hclaim keeping wire plan 1 definition (policy keeping) evidence start (joined false)
    (joined true) (steps primary) (supplied keeping false) primary substitute
    (assessment keeping 'p' 0 0) (assessment keeping 's' 0 1) ⟨9, by decide⟩ first second
    fromParts_wire (tryNew_definition _) fromPlan_plan (run_joined false) substitutes mem_cons_self
    (interchange _) hrun hfirst hsnd
  rw [haccept, hrework] at hsame
  cases hsame

end OctaCity.Factory
