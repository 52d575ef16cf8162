/-
  OctaCity.Factory.Review.Exactness

  The Decision Engine over completed joins (octacity-server-factory,
  `decision_engine.rs` and `evaluation.rs`).
-/
import OctaCity.Factory.Review.Engine

namespace OctaCity.Factory

open Lib List

variable (library : ReviewLibrary)

/-- Receipts in the order of their identifiers. -/
def sortReceipts (receipts : List DecisionSignalReceipt) : List DecisionSignalReceipt :=
  receipts.mergeSort fun a b => decide (a.id ≤ b.id)

/-- The Decision the engine makes of an accepted input. -/
def DecisionEngineInput.decision (id : DecisionId) (input : DecisionEngineInput) : Decision :=
  { id, planId := input.plan.id, subject := input.plan.subject
    outcome := (decisionOutcome input).1
    assessmentIds :=
      (Table.putAll input.assessments : Table Assessment.evaluator).rows.map Assessment.id
    signalReceiptIds := (sortReceipts input.signalReceipts).map (·.id)
    reasons := (decisionOutcome input).2
    inputDigest := digestDecisionInput library input
    policyVersion := input.policy.version, policyDigest := input.policy.digest }

variable {library}

variable {input : DecisionEngineInput} {id : DecisionId} {plan : EvaluationPlan}
  {assessments : List Assessment} {receipts : List DecisionSignalReceipt} {decision : Decision}
  {progress : EvaluationProgress} {policy : DecisionPolicy} {evidence : EvidenceManifest}

theorem decisionOutcome_reasons_length (hdist : (input.assessments.map (·.evaluator)).Nodup)
    (hquor : input.policy.quorum ≤ input.assessments.length) : (decisionOutcome input).2.length =
      max 1 (input.policy.refusals input.evidence input.assessments) := by
  have hlen := decisionReasons_length hdist hquor
  unfold decisionOutcome
  dsimp only
  split
  · rename_i hnil
    rw [hnil, length_nil] at hlen
    simp [← hlen]
  · rename_i hne
    have hpos : 0 < (decisionReasons input).length := length_pos_iff.mpr hne
    dsimp only
    omega

/-- Over bounded, bound and distinct records only the number of reasons can fail. -/
theorem Decision.fromEngine_eq_ok_iff {outcome : DecisionOutcome} {reasons : List DecisionReason}
    {bindings : DecisionBindings} (hassess : assessments.length ≤ maxDecisionAssessments)
    (hrcpts : receipts.length ≤ maxDecisionSignalReceipts) (hbound : ∀ assessment ∈ assessments,
      assessment.planId = plan.id ∧ assessment.subject = plan.subject)
    (hids : (assessments.map (·.id)).Nodup) (hreceiptIds : (receipts.map (·.id)).Nodup) :
    Decision.fromEngine id plan outcome assessments receipts reasons bindings = .ok decision ↔
      (1 ≤ reasons.length ∧ reasons.length ≤ maxDecisionReasons) ∧ decision =
        { id, planId := plan.id, subject := plan.subject, outcome
          assessmentIds := assessments.map (·.id), signalReceiptIds := receipts.map (·.id), reasons
          inputDigest := bindings.inputDigest, policyVersion := bindings.policyVersion
          policyDigest := bindings.policyDigest } := by
  have hforeign : ¬(assessments.any fun assessment =>
      assessment.planId ≠ plan.id || assessment.subject ≠ plan.subject) = true := by
    simpa using hbound
  unfold Decision.fromEngine
  rw [if_neg (not_lt.mpr hassess), if_neg (not_lt.mpr hrcpts), bind_eq_ok]
  simp only [if_neg hforeign, if_neg (not_not.mpr hids), if_neg (not_not.mpr hreceiptIds),
    Except.ok.injEq, eq_comm (b := decision)]
  constructor
  · rintro ⟨_, hcount, hdec⟩
    exact ⟨validateCount_eq_ok.mp hcount, hdec⟩
  · rintro ⟨hcount, hdec⟩
    exact ⟨(), validateCount_eq_ok.mpr hcount, hdec⟩

/-- An accepted input is decided unless it has too many reasons. -/
theorem evaluateDecision_eq_ok_iff (hacc : input.Accepted library)
    (hquor : input.policy.quorum ≤ input.assessments.length) :
    evaluateDecision library id input = .ok decision ↔
      input.policy.refusals input.evidence input.assessments ≤ maxDecisionReasons ∧
        decision = input.decision library id := by
  have hperm : (Table.putAll input.assessments : Table Assessment.evaluator).rows.Perm
      input.assessments := Table.putAll_rows_perm hacc.evaluators_nodup
  have hsort : (sortReceipts input.signalReceipts).Perm input.signalReceipts :=
    mergeSort_perm _ _
  have hcount := decisionOutcome_reasons_length hacc.evaluators_nodup hquor
  have hcall : evaluateDecision library id input = Decision.fromEngine id input.plan
      (decisionOutcome input).1 (Table.putAll input.assessments : Table Assessment.evaluator).rows
      (sortReceipts input.signalReceipts) (decisionOutcome input).2
      ⟨digestDecisionInput library input, input.policy.version, input.policy.digest⟩ := by
    unfold evaluateDecision
    rw [validateInput_eq_ok.mpr hacc]
    rfl
  rw [hcall, Decision.fromEngine_eq_ok_iff (hperm.length_eq.trans_le hacc.assessments_le)
    (hsort.length_eq.trans_le hacc.receipts_le)
    (fun assessment h => hacc.plan_bound assessment (hperm.mem_iff.mp h))
    ((hperm.map _).nodup_iff.mpr hacc.ids_nodup)
    ((hsort.map _).nodup_iff.mpr hacc.receipt_ids_nodup), hcount]
  have hmost : 1 ≤ maxDecisionReasons := by decide
  exact and_congr_left fun _ => ⟨fun h => (le_max_right _ _).trans h.2,
    fun h => ⟨le_max_left _ _, max_le hmost h⟩⟩

/-! ## Supplied in another order -/

/-- The same manifest, built from its items in another order. -/
def EvidenceManifest.Reordered (manifest manifest' : EvidenceManifest) : Prop :=
  ∃ id changesetId subject constructedAt requirements items items' inputs base base',
    items'.Perm items ∧
    fromParts id changesetId subject constructedAt requirements items = .ok base ∧
    fromParts id changesetId subject constructedAt requirements items' = .ok base' ∧
    manifest = { base with inputs } ∧ manifest' = { base' with inputs }

/-- The same plan, built from its branches in another order. -/
def EvaluationPlan.Reordered (plan plan' : EvaluationPlan) : Prop :=
  ∃ wire branches, branches.Perm wire.branches ∧ fromParts wire = .ok plan ∧
    fromParts { wire with branches } = .ok plan'

/-- The same progress, built from its branches in another order. -/
def EvaluationProgress.Reordered (progress progress' : EvaluationProgress) : Prop :=
  ∃ branches branches' requiredQuorum, branches'.Perm branches ∧
    tryNew branches requiredQuorum = .ok progress ∧ tryNew branches' requiredQuorum = .ok progress'

theorem EvidenceManifest.Reordered.eq {manifest manifest' : EvidenceManifest}
    (h : manifest.Reordered manifest') : manifest' = manifest := by
  obtain ⟨_, _, _, _, _, _, _, _, _, _, hperm, hbase, hbase', rfl, rfl⟩ := h
  cases (fromParts_perm hperm hbase).symm.trans hbase'
  rfl

theorem EvaluationPlan.Reordered.eq {plan' : EvaluationPlan} (h : plan.Reordered plan') :
    plan' = plan := by
  obtain ⟨_, _, hperm, hplan, hplan'⟩ := h
  cases (fromParts_perm hperm hplan).symm.trans hplan'
  rfl

theorem EvaluationProgress.Reordered.eq {progress' : EvaluationProgress}
    (h : progress.Reordered progress') : progress' = progress := by
  obtain ⟨_, _, _, hperm, hprog, hprog'⟩ := h
  cases (tryNew_perm hperm hprog).symm.trans hprog'
  rfl

/-- An identifier names one record. -/
def Identified {α κ : Type} (id : α → κ) (values : List α) : Prop :=
  ∀ a ∈ values, ∀ b ∈ values, id a = id b → a = b

theorem find?_eq_some_of_identified {α κ : Type} [DecidableEq κ] {id : α → κ} {values : List α}
    (hids : Identified id values) {key : κ} {a : α} :
    (values.find? fun value => id value = key) = some a ↔ a ∈ values ∧ id a = key := by
  constructor
  · intro h
    exact ⟨mem_of_find?_eq_some h, by simpa using List.find?_some h⟩
  · rintro ⟨ha, rfl⟩
    cases hfound : values.find? fun value => id value = id a with
    | none =>
      have hnone := List.find?_eq_none.mp hfound a ha
      simp at hnone
    | some b =>
      have hb : id b = id a := by simpa using List.find?_some hfound
      rw [hids b (mem_of_find?_eq_some hfound) a ha hb]

/-- Looking up by an identifier does not depend on the order of the records. -/
theorem find?_perm_of_identified {α κ : Type} [DecidableEq κ] {id : α → κ}
    {values values' : List α} (hids : Identified id values) (hperm : values'.Perm values) (key : κ) :
    (values'.find? fun value => id value = key) = values.find? fun value => id value = key := by
  have hids' : Identified id values' := fun a ha b hb =>
    hids a (hperm.mem_iff.mp ha) b (hperm.mem_iff.mp hb)
  apply Option.ext
  intro a
  rw [find?_eq_some_of_identified hids', find?_eq_some_of_identified hids, hperm.mem_iff]

theorem consumed_perm {assessments' : List Assessment}
    (hids : Identified Assessment.id assessments) (hperm : assessments'.Perm assessments) :
    progress.consumed assessments' = progress.consumed assessments := by
  unfold EvaluationProgress.consumed
  simp only [find?_perm_of_identified hids hperm]

/-- The Decision of an input depends on the set of its receipts only. -/
theorem decision_perm (hacc : input.Accepted library)
    (hperm : receipts.Perm input.signalReceipts) :
    { input with signalReceipts := receipts }.decision library id = input.decision library id := by
  have hids : ∀ a ∈ input.signalReceipts, ∀ b ∈ input.signalReceipts, a.id = b.id → a = b :=
    fun _ ha _ hb => inj_on_of_nodup_map hacc.receipt_ids_nodup ha hb
  have hsort : sortReceipts receipts = sortReceipts input.signalReceipts :=
    mergeSort_key_perm hperm hids
  have hbytes : sortBytes (receipts.map encodeSignalReceipt) =
      sortBytes (input.signalReceipts.map encodeSignalReceipt) :=
    mergeSort_key_perm (hperm.map _) fun a _ b _ h =>
      (Function.Injective.list_map fun _ _ => UInt8.toNat_inj.mp) h
  simp only [DecisionEngineInput.decision, hsort, digestDecisionInput, hbytes]
  rfl

/-! ## Exact Decisions -/

variable (library)

/-- A completed join is decided, exactly, in any order of what is supplied, whatever the receipts
are, and the Decision passes its own check. -/
structure DecidesExactly (evidence : EvidenceManifest) (plan : EvaluationPlan)
    (policy : DecisionPolicy) (progress : EvaluationProgress) (assessments : List Assessment)
    (receipts : List DecisionSignalReceipt) (id : DecisionId) (decision : Decision) : Prop where
  decided : decideCompletedJoin library id evidence plan policy progress assessments receipts =
    .ok decision
  accept_iff : decision.outcome = .accept ↔
    policy.Acceptable evidence (progress.consumed assessments)
  otherwise : ¬policy.Acceptable evidence (progress.consumed assessments) →
    decision.outcome = policy.failureOutcome
  order_free : ∀ evidence' plan' progress' assessments' receipts' id',
    evidence.Reordered evidence' → plan.Reordered plan' → progress.Reordered progress' →
    assessments'.Perm assessments → receipts'.Perm receipts →
    decideCompletedJoin library id' evidence' plan' policy progress' assessments' receipts' =
      .ok { decision with id := id' }
  receipt_free : ∀ receipts' input',
    DecisionEngineInput.fromCompletedEvaluation evidence plan policy progress assessments receipts' =
      .ok input' → validateInput library input' = .ok () →
    ∃ decision', decideCompletedJoin library id evidence plan policy progress assessments receipts' =
        .ok decision' ∧
      decision'.outcome = decision.outcome ∧ decision'.reasons = decision.reasons
  bindings : decision.validateBindings library plan progress assessments receipts = .ok ()

variable {library}

theorem DecisionPolicy.tryNew_failureOutcome {version : Nat} {definition : DecisionPolicyDefinition}
    (h : tryNew library version definition = .ok policy) : policy.failureOutcome ≠ .accept := by
  obtain ⟨_, -, h⟩ := bind_eq_ok.mp h
  obtain ⟨_, -, h⟩ := bind_eq_ok.mp h
  split at h
  · cases h
  · split at h
    · cases h
    · rename_i hfailure
      cases h
      exact hfailure

theorem decideCompletedJoin_eq_ok_iff (hplan : plan.WellFormed)
    (hinput : DecisionEngineInput.fromCompletedEvaluation evidence plan policy progress assessments
      receipts = .ok input) (hvalid : validateInput library input = .ok ()) :
    decideCompletedJoin library id evidence plan policy progress assessments receipts =
        .ok decision ↔
      policy.refusals evidence (progress.consumed assessments) ≤ maxDecisionReasons ∧
        decision = input.decision library id := by
  have hacc := validateInput_eq_ok.mp hvalid
  obtain ⟨hjoined, hfound, rfl⟩ := (fromCompletedEvaluation_eq_ok hplan).mp hinput
  have hquor : policy.quorum ≤ (progress.consumed assessments).length := by
    have hsame : policy.quorum = plan.requiredQuorum := hacc.quorum
    rw [← hfound.length_eq, hsame]
    exact hjoined.quorum_le
  unfold decideCompletedJoin
  rw [hinput]
  exact evaluateDecision_eq_ok_iff hacc hquor

theorem lastById_eq_some {α κ : Type} [DecidableEq κ] {id : α → κ} {values : List α}
    (hids : Identified id values) {a : α} (ha : a ∈ values) :
    lastById id values (id a) = some a := by
  unfold lastById
  rw [find?_perm_of_identified hids values.reverse_perm]
  exact (find?_eq_some_of_identified hids).mpr ⟨ha, rfl⟩

/-- The selected Assessments are supplied ones. -/
theorem mem_of_mem_consumed
    {assessment : Assessment} (h : assessment ∈ progress.consumed assessments) :
    assessment ∈ assessments := by
  obtain ⟨result, _, hfound⟩ := mem_filterMap.mp h
  exact mem_of_find?_eq_some hfound

theorem consumed_ids {results : List EvaluationBranchResult} {selected : List Assessment}
    (hfound : List.Forall₂ (fun result assessment => (assessments.find? fun assessment =>
      assessment.id = result.assessmentId) = some assessment) results selected) :
    selected.map Assessment.id = results.map (·.assessmentId) := by
  induction hfound with
  | nil => rfl
  | cons hhead _ ih =>
    have hid := List.find?_some hhead
    simp only [decide_eq_true_eq] at hid
    rw [map_cons, map_cons, hid, ih]

/-- The Decision of a valid join is accepted when it is restored. -/
theorem decision_validateBindings
    (hplan : plan.WellFormed) (hids : Identified Assessment.id assessments)
    (hinput : DecisionEngineInput.fromCompletedEvaluation evidence plan policy progress assessments
      receipts = .ok input) (hacc : input.Accepted library) :
    (input.decision library id).validateBindings library plan progress assessments receipts =
      .ok () := by
  obtain ⟨hjoined, hfound, rfl⟩ := (fromCompletedEvaluation_eq_ok hplan).mp hinput
  have hperm : (Table.putAll (progress.consumed assessments) : Table Assessment.evaluator).rows.Perm
      (progress.consumed assessments) := Table.putAll_rows_perm hacc.evaluators_nodup
  have hsort : (sortReceipts receipts).Perm receipts := mergeSort_perm _ _
  have hidsPerm : ((Table.putAll (progress.consumed assessments) :
      Table Assessment.evaluator).rows.map Assessment.id).Perm
      (progress.results.map (·.assessmentId)) :=
    (hperm.map _).trans (List.Perm.of_eq (consumed_ids hfound))
  have hrcpts : Identified DecisionSignalReceipt.id receipts :=
    fun _ ha _ hb => inj_on_of_nodup_map hacc.receipt_ids_nodup ha hb
  have hassessmentsValid : ∀ id ∈ (Table.putAll (progress.consumed assessments) :
      Table Assessment.evaluator).rows.map Assessment.id,
      (lastById Assessment.id assessments id).any (fun assessment =>
        assessment.planId = plan.id && assessment.subject = plan.subject &&
          plan.branches.rows.any (·.allowsEvaluator assessment.evaluatorReference)) = true := by
    intro id hid
    obtain ⟨assessment, hrow, rfl⟩ := mem_map.mp hid
    have hmem : assessment ∈ progress.consumed assessments := hperm.mem_iff.mp hrow
    rw [lastById_eq_some hids (mem_of_mem_consumed hmem), Option.any_some]
    have hbound : assessment.planId = plan.id ∧ assessment.subject = plan.subject :=
      hacc.plan_bound assessment hmem
    have hallow : plan.branches.rows.any (·.allowsEvaluator assessment.evaluatorReference) = true :=
      Assessment.validateBindings_hasEvaluator (hacc.bindings assessment hmem)
    simp [hbound.1, hbound.2, hallow]
  have hreceiptsValid : ∀ id ∈ (sortReceipts receipts).map (·.id),
      (lastById DecisionSignalReceipt.id receipts id).any (fun receipt =>
        receipt.isBound library plan.subject.exact (progress.results.map (·.node))) = true := by
    intro id hid
    obtain ⟨receipt, hrow, rfl⟩ := mem_map.mp hid
    have hmem : receipt ∈ receipts := hsort.mem_iff.mp hrow
    rw [lastById_eq_some hrcpts hmem, Option.any_some]
    exact hacc.receipts_bound receipt hmem
  unfold Decision.validateBindings
  refine (if_neg (not_or.mpr ⟨not_not.mpr rfl, not_not.mpr rfl⟩)).trans ?_
  refine bind_eq_ok.mpr ⟨_, (EvaluationProgress.decisionBindings_iff hplan).mpr ⟨hjoined, rfl⟩, ?_⟩
  refine (if_neg (not_not.mpr ⟨hidsPerm.symm.subset, hidsPerm.subset⟩)).trans (if_pos ?_)
  exact ⟨hidsPerm.nodup_iff.mpr hjoined.ids_nodup,
    (hsort.map _).nodup_iff.mpr hacc.receipt_ids_nodup,
    all_eq_true.mpr hassessmentsValid, all_eq_true.mpr hreceiptsValid⟩

/-- Without a reason against it the candidate is accepted, and otherwise it is not. -/
theorem decisionOutcome_accept_iff (hfailure : input.policy.failureOutcome ≠ .accept) :
    (decisionOutcome input).1 = .accept ↔ decisionReasons input = [] := by
  unfold decisionOutcome
  dsimp only
  split
  · rename_i hnil
    exact iff_of_true rfl hnil
  · rename_i hne
    exact iff_of_false hfailure hne

theorem decisionOutcome_otherwise (h : decisionReasons input ≠ []) :
    (decisionOutcome input).1 = input.policy.failureOutcome := by
  unfold decisionOutcome
  dsimp only
  rw [if_neg h]

/-- The outcome of a Decision is acceptance exactly where the candidate is acceptable. -/
theorem decideCompletedJoin_outcome
    (hplan : plan.WellFormed) (hfailure : policy.failureOutcome ≠ .accept)
    (hinput : DecisionEngineInput.fromCompletedEvaluation evidence plan policy progress assessments
      receipts = .ok input) (hvalid : validateInput library input = .ok ())
    (h : decideCompletedJoin library id evidence plan policy progress assessments receipts =
      .ok decision) :
    (decision.outcome = .accept ↔ policy.Acceptable evidence (progress.consumed assessments)) ∧
      (¬policy.Acceptable evidence (progress.consumed assessments) →
        decision.outcome = policy.failureOutcome) := by
  have hacc := validateInput_eq_ok.mp hvalid
  obtain ⟨-, rfl⟩ := (decideCompletedJoin_eq_ok_iff hplan hinput hvalid).mp h
  obtain ⟨hjoined, hfound, rfl⟩ := (fromCompletedEvaluation_eq_ok hplan).mp hinput
  have hquor : policy.quorum ≤ (progress.consumed assessments).length := by
    have hsame : policy.quorum = plan.requiredQuorum := hacc.quorum
    rw [← hfound.length_eq, hsame]
    exact hjoined.quorum_le
  have hreasons : decisionReasons (progress.engineInput evidence plan policy assessments receipts) =
      [] ↔ policy.Acceptable evidence (progress.consumed assessments) := by
    rw [← refusals_eq_zero_iff hquor, ← length_eq_zero_iff,
      decisionReasons_length hacc.evaluators_nodup hquor]
    rfl
  exact ⟨(decisionOutcome_accept_iff hfailure).trans hreasons,
    fun hrefused => decisionOutcome_otherwise (mt hreasons.mp hrefused)⟩

/-- The check of an input does not depend on the order of its receipts. -/
theorem DecisionEngineInput.Accepted.perm (h : input.Accepted library)
    (hperm : receipts.Perm input.signalReceipts) :
    { input with signalReceipts := receipts }.Accepted library :=
  { h with
    receipts_le := hperm.length_eq.trans_le h.receipts_le
    receipts_bound := fun receipt hmem => h.receipts_bound receipt (hperm.mem_iff.mp hmem)
    receipt_ids_nodup := (hperm.map _).nodup_iff.mpr h.receipt_ids_nodup
    request_ids_nodup := (hperm.map _).nodup_iff.mpr h.request_ids_nodup }

/-- A completed join that passes the check is decided exactly where its grounds for refusal fit
the reasons of a Decision, and not at all where they do not. -/
theorem decideCompletedJoin_exact_iff {wire : EvaluationPlanWire} {plan : EvaluationPlan}
    (hplan : EvaluationPlan.fromParts wire = .ok plan) {version : Nat}
    {definition : DecisionPolicyDefinition} {policy : DecisionPolicy}
    (hpol : DecisionPolicy.tryNew library version definition = .ok policy)
    {evidence : EvidenceManifest} {progress : EvaluationProgress} {assessments : List Assessment}
    {receipts : List DecisionSignalReceipt} {input : DecisionEngineInput}
    (hids : Identified Assessment.id assessments)
    (hinput : DecisionEngineInput.fromCompletedEvaluation evidence plan policy progress assessments
      receipts = .ok input) (hvalid : validateInput library input = .ok ()) (id : DecisionId) :
    (∃ decision, DecidesExactly library evidence plan policy progress assessments receipts id
      decision) ↔
    policy.refusals evidence (progress.consumed assessments) ≤ maxDecisionReasons := by
  have hshape := EvaluationPlan.fromParts_wellFormed hplan
  have hacc := validateInput_eq_ok.mp hvalid
  have hdecd : ∀ {decision}, decideCompletedJoin library id evidence plan policy progress
      assessments receipts = .ok decision ↔ _ :=
    decideCompletedJoin_eq_ok_iff hshape hinput hvalid
  constructor
  · rintro ⟨decision, hexact⟩
    exact (hdecd.mp hexact.decided).1
  intro hfits
  have hok := hdecd.mpr ⟨hfits, rfl⟩
  obtain ⟨haccept, hotherwise⟩ := decideCompletedJoin_outcome hshape
    (DecisionPolicy.tryNew_failureOutcome hpol) hinput hvalid hok
  obtain ⟨hjoined, hfound, rfl⟩ := (fromCompletedEvaluation_eq_ok hshape).mp hinput
  refine ⟨_, hok, haccept, hotherwise, ?_, ?_,
    decision_validateBindings hshape hids hinput hacc⟩
  · intro evidence' plan' progress' assessments' receipts' id' hevid hplan' hprog
      hassess hrcpts
    cases hevid.eq
    cases hplan'.eq
    cases hprog.eq
    have hcons : progress.consumed assessments' = progress.consumed assessments :=
      consumed_perm hids hassess
    have hsame : progress.engineInput evidence plan policy assessments' receipts' =
        { progress.engineInput evidence plan policy assessments receipts with
          signalReceipts := receipts' } := by
      rw [EvaluationProgress.engineInput, hcons]
      rfl
    have hinput' : DecisionEngineInput.fromCompletedEvaluation evidence plan policy progress
        assessments' receipts' = .ok (progress.engineInput evidence plan policy assessments'
          receipts') := by
      refine (fromCompletedEvaluation_eq_ok hshape).mpr ⟨hjoined, ?_, rfl⟩
      simpa only [hcons, find?_perm_of_identified hids hassess] using hfound
    have hvalid' : validateInput library (progress.engineInput evidence plan policy assessments'
        receipts') = .ok () := validateInput_eq_ok.mpr (hsame ▸ hacc.perm hrcpts)
    refine (decideCompletedJoin_eq_ok_iff hshape hinput' hvalid').mpr ⟨hcons ▸ hfits, ?_⟩
    rw [hsame, decision_perm hacc hrcpts]
    rfl
  · intro receipts' input' hinput' hvalid'
    obtain ⟨-, -, rfl⟩ := (fromCompletedEvaluation_eq_ok hshape).mp hinput'
    exact ⟨_, (decideCompletedJoin_eq_ok_iff hshape hinput' hvalid').mpr ⟨hfits, rfl⟩, rfl, rfl⟩

end OctaCity.Factory
