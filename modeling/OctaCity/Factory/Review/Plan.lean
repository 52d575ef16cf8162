/-
  OctaCity.Factory.Review.Plan

  Immutable evaluation plans over criteria, evaluator branches and bounds
  (octacity-server-factory, `review_plan.rs`).

  A branch names one primary evaluator and the substitutes allowed in its
  place.  The number of branches is bounded; the number of evaluators they
  name is not.
-/
import OctaCity.Factory.Budget
import OctaCity.Factory.Review.Evidence

namespace OctaCity.Factory

open Lib List

/-- Most criterion packs one plan selects. -/
def maxCriterionPacks : Nat := 32

/-- Most evaluator branches one plan selects. -/
def maxEvaluators : Nat := 32

/-- Factory phase whose candidate is being reviewed. -/
inductive ReviewPurpose
  | requirements
  | implementation
  | codeReview
  | verification
  | deployment

/-- Project-owned immutable criteria. -/
structure CriterionPack where
  projectId : ProjectId
  reference : ImmutableReference
  schema : ImmutableReference
  artifact : FactoryArtifactReference
  bound : reference.digest = artifact.contentDigest

/-- One independently evaluated branch in a review plan. -/
structure ReviewBranch where
  key : FactoryKey
  evaluator : ImmutableReference
  substitutes : List ImmutableReference
  required : Bool
  deriving DecidableEq

namespace ReviewBranch

def new (key : FactoryKey) (evaluator : ImmutableReference) (required : Bool) : ReviewBranch :=
  ⟨key, evaluator, [], required⟩

/-- A branch with a canonical set of substitute evaluators. -/
def withSubstitutes (key : FactoryKey) (evaluator : ImmutableReference)
    (substitutes : List ImmutableReference) (required : Bool) : Except ReviewError ReviewBranch :=
  let substitutes := substitutes.insertionSort (· ≤ ·)
  if substitutes = [] ∨ ¬substitutes.Nodup ∨ evaluator ∈ substitutes ∨
      ¬(substitutes.map (·.identity)).Nodup ∨
      substitutes.any (·.identity = evaluator.identity) then
    .error (.invalidReference "review branch substitutes")
  else .ok ⟨key, evaluator, substitutes, required⟩

def allowsEvaluator (branch : ReviewBranch) (evaluator : ImmutableReference) : Bool :=
  branch.evaluator = evaluator || branch.substitutes.contains evaluator

/-- The primary evaluator, then its substitutes. -/
def evaluators (branch : ReviewBranch) : List ImmutableReference :=
  branch.evaluator :: branch.substitutes

theorem allowsEvaluator_iff {branch : ReviewBranch} {evaluator : ImmutableReference} :
    branch.allowsEvaluator evaluator = true ↔ evaluator ∈ branch.evaluators := by
  simp only [allowsEvaluator, evaluators, Bool.or_eq_true, decide_eq_true_eq,
    contains_iff_mem, mem_cons]
  rw [eq_comm]

end ReviewBranch

/-! ## Plans -/

/-- The parts a plan is made of, also the form it is restored from. -/
structure EvaluationPlanWire where
  id : EvaluationPlanId
  evidenceId : EvidenceManifestId
  purpose : ReviewPurpose
  subject : CandidateSubject
  criterionPacks : List CriterionPack
  branches : List ReviewBranch
  requiredQuorum : Nat
  budget : BudgetLimit
  createdAt : Timestamp
  deadline : Timestamp
  dataHandling : ImmutableReference

/-- Immutable selection of candidate, evidence, criteria, branches and bounds. -/
structure EvaluationPlan where
  id : EvaluationPlanId
  evidenceId : EvidenceManifestId
  purpose : ReviewPurpose
  subject : CandidateSubject
  criterionPacks : Table CriterionPack.reference
  branches : Table ReviewBranch.key
  requiredQuorum : Nat
  budget : BudgetLimit
  createdAt : Timestamp
  deadline : Timestamp
  dataHandling : ImmutableReference

/-- Evaluators of all branches, in branch order. -/
def branchEvaluators (branches : List ReviewBranch) : List ImmutableReference :=
  branches.flatMap ReviewBranch.evaluators

def validateUniqueBy {α : Type} [DecidableEq α] (values : List α) (relationship : String) :
    Except ReviewError Unit :=
  if values.Nodup then .ok () else .error (.invalidReference relationship)

@[simp] theorem validateUniqueBy_eq_ok {α : Type} [DecidableEq α] {values : List α}
    {relationship : String} : validateUniqueBy values relationship = .ok () ↔ values.Nodup := by
  simp [validateUniqueBy]

theorem validateUniqueBy_perm {α : Type} [DecidableEq α] {values values' : List α}
    (h : values'.Perm values) (relationship : String) :
    validateUniqueBy values' relationship = validateUniqueBy values relationship := by
  simp [validateUniqueBy, h.nodup_iff]

def validateBranchEvaluators (branches : List ReviewBranch) : Except ReviewError Unit := do
  validateUniqueBy (branchEvaluators branches) "review evaluators"
  validateUniqueBy ((branchEvaluators branches).map (·.identity)) "review evaluator identities"

def validatePlanCount (count maximum : Nat) (collection : String) : Except ReviewError Unit :=
  validateCount count 1 maximum collection

def validatePlanShape (plan : EvaluationPlanWire) : Except ReviewError Unit := do
  if plan.criterionPacks.any (·.projectId ≠ plan.subject.exact.projectId) then
    .error .inconsistentSubject
  else do
    let elapsed := plan.deadline.unixMillis - plan.createdAt.unixMillis
    -- A negative difference is no `u64`, and neither is one that overflows `i64`.
    if elapsed ≤ 0 ∨ (plan.budget.maxElapsedMillis : Int) < elapsed ∨ 2 ^ 63 ≤ elapsed then
      .error (.invalidReference "evaluation deadline")
    else do
      validatePlanCount plan.criterionPacks.length maxCriterionPacks "criterion packs"
      validatePlanCount plan.branches.length maxEvaluators "review branches"
      if plan.requiredQuorum = 0 ∨ plan.branches.length < plan.requiredQuorum ∨
          plan.requiredQuorum < plan.branches.countP (·.required) then
        .error (.invalidReference "evaluation quorum")
      else do
        validateUniqueBy (plan.criterionPacks.map (·.reference)) "criterion packs"
        validateUniqueBy (plan.criterionPacks.map (·.reference.identity))
          "criterion pack identities"
        validateUniqueBy (plan.branches.map (·.key)) "review branches"
        validateBranchEvaluators plan.branches

def EvaluationPlan.fromParts (wire : EvaluationPlanWire) : Except ReviewError EvaluationPlan := do
  validatePlanShape wire
  -- The shape has unique references and keys, so that sorting is all that is left.
  let criterionPacks ← Table.empty.insertAll (fun _ => .invalidReference "criterion packs")
    wire.criterionPacks
  let branches ← Table.empty.insertAll (fun _ => .invalidReference "review branches") wire.branches
  .ok
    { id := wire.id, evidenceId := wire.evidenceId, purpose := wire.purpose
      subject := wire.subject, criterionPacks, branches, requiredQuorum := wire.requiredQuorum
      budget := wire.budget, createdAt := wire.createdAt, deadline := wire.deadline
      dataHandling := wire.dataHandling }

variable {plan : EvaluationPlan} {wire : EvaluationPlanWire}

namespace EvaluationPlan

/-- An exact evaluator is selected by the plan. -/
def hasEvaluator (plan : EvaluationPlan) (evaluator : ImmutableReference) : Bool :=
  plan.branches.rows.any (·.allowsEvaluator evaluator)

/-- A logical evaluator identity is selected by the plan. -/
def hasEvaluatorIdentity (plan : EvaluationPlan) (evaluator : FactoryKey) : Bool :=
  plan.branches.rows.any fun branch =>
    branch.evaluator.identity = evaluator || branch.substitutes.any (·.identity = evaluator)

def evaluatorCount (plan : EvaluationPlan) : Nat := plan.branches.rows.length

/-- Identities of all primary and substitute evaluators. -/
def identities (plan : EvaluationPlan) : List FactoryKey :=
  (branchEvaluators plan.branches.rows).map (·.identity)

theorem hasEvaluator_iff {evaluator : ImmutableReference} :
    plan.hasEvaluator evaluator = true ↔ evaluator ∈ branchEvaluators plan.branches.rows := by
  simp [hasEvaluator, branchEvaluators, ReviewBranch.allowsEvaluator_iff]

theorem hasEvaluatorIdentity_iff {evaluator : FactoryKey} :
    plan.hasEvaluatorIdentity evaluator = true ↔ evaluator ∈ plan.identities := by
  simp only [hasEvaluatorIdentity, identities, branchEvaluators, ReviewBranch.evaluators,
    any_eq_true, Bool.or_eq_true, decide_eq_true_eq, mem_map, mem_flatMap,
    mem_cons]
  constructor
  · rintro ⟨branch, hbr, hprim | ⟨substitute, hsubst, hident⟩⟩
    · exact ⟨_, ⟨branch, hbr, .inl rfl⟩, hprim⟩
    · exact ⟨substitute, ⟨branch, hbr, .inr hsubst⟩, hident⟩
  · rintro ⟨reference, ⟨branch, hbr, rfl | hsubst⟩, hident⟩
    · exact ⟨branch, hbr, .inl hident⟩
    · exact ⟨branch, hbr, .inr ⟨reference, hsubst, hident⟩⟩

/-! ## What construction guarantees -/

/-- The shape of a plan that its later readers rely on. -/
structure WellFormed (plan : EvaluationPlan) : Prop where
  branches_le : plan.branches.rows.length ≤ maxEvaluators
  quorum_pos : 0 < plan.requiredQuorum
  quorum_le : plan.requiredQuorum ≤ plan.branches.rows.length
  identities_nodup : plan.identities.Nodup

end EvaluationPlan

theorem validatePlanShape_eq_ok (h : validatePlanShape wire = .ok ()) :
    wire.branches.length ≤ maxEvaluators ∧ 0 < wire.requiredQuorum ∧
      wire.requiredQuorum ≤ wire.branches.length ∧
      ((branchEvaluators wire.branches).map (·.identity)).Nodup := by
  unfold validatePlanShape at h
  split at h
  · cases h
  dsimp only at h
  split at h
  · cases h
  obtain ⟨_, -, h⟩ := bind_eq_ok.mp h
  obtain ⟨_, hcount, h⟩ := bind_eq_ok.mp h
  split at h
  · cases h
  rename_i hquor
  obtain ⟨_, -, h⟩ := bind_eq_ok.mp h
  obtain ⟨_, -, h⟩ := bind_eq_ok.mp h
  obtain ⟨_, -, h⟩ := bind_eq_ok.mp h
  obtain ⟨_, -, h⟩ := bind_eq_ok.mp h
  have hle : wire.branches.length ≤ maxEvaluators := (validateCount_eq_ok.mp hcount).2
  refine ⟨hle, ?_, ?_, validateUniqueBy_eq_ok.mp h⟩ <;> omega

theorem branchEvaluators_perm {branches branches' : List ReviewBranch}
    (h : branches'.Perm branches) : (branchEvaluators branches').Perm (branchEvaluators branches) :=
  h.flatMap_right _

/-- A plan does not depend on the order its branches are supplied in. -/
theorem EvaluationPlan.fromParts_perm {branches : List ReviewBranch}
    (hperm : branches.Perm wire.branches) (h : fromParts wire = .ok plan) :
    fromParts { wire with branches } = .ok plan := by
  have hshape : validatePlanShape { wire with branches } = validatePlanShape wire := by
    have hevaluators := branchEvaluators_perm hperm
    simp only [validatePlanShape, validateBranchEvaluators, hperm.length_eq, hperm.countP_eq,
      validateUniqueBy_perm (hperm.map _), validateUniqueBy_perm hevaluators,
      validateUniqueBy_perm (hevaluators.map _)]
  obtain ⟨_, hvalid, h⟩ := bind_eq_ok.mp h
  obtain ⟨packs, hpacks, h⟩ := bind_eq_ok.mp h
  obtain ⟨rows, hrows, h⟩ := bind_eq_ok.mp h
  exact bind_eq_ok.mpr ⟨(), hshape.trans hvalid, bind_eq_ok.mpr ⟨packs, hpacks,
    bind_eq_ok.mpr ⟨rows, Table.insertAll_perm hperm hrows, h⟩⟩⟩

theorem EvaluationPlan.fromParts_wellFormed (h : fromParts wire = .ok plan) : plan.WellFormed := by
  obtain ⟨_, hshape, h⟩ := bind_eq_ok.mp h
  obtain ⟨packs, _, h⟩ := bind_eq_ok.mp h
  obtain ⟨branches, hbranches, h⟩ := bind_eq_ok.mp h
  cases h
  obtain ⟨hle, hpos, hquor, hnodup⟩ := validatePlanShape_eq_ok hshape
  have hperm : branches.rows.Perm wire.branches := by
    simpa [Table.empty] using Table.insertAll_eq_ok hbranches
  have hlen := hperm.length_eq
  exact
    { branches_le := hlen.trans_le hle
      quorum_pos := hpos
      quorum_le := hquor.trans_eq hlen.symm
      identities_nodup := ((branchEvaluators_perm hperm).map _).nodup_iff.mpr hnodup }

end OctaCity.Factory
