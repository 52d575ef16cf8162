/-
  OctaCity.Factory.Review.Progress

  Fan-out over the evaluator branches of a plan and their join
  (octacity-server-factory, `evaluation_progress.rs`).
-/
import OctaCity.Factory.Review.Assessment

namespace OctaCity.Factory

open Lib List

/-- Persisted progress of one evaluator branch. -/
inductive EvaluationBranchState
  | pending
  | attemptCreated
  | buildActive
  | resultPending
  | completed
  | retryableFailure
  | retryRequested
  | failed
  | substituted
  | exhausted
  | missing
  | cancelled
  deriving DecidableEq

/-- Immutable accepted result of one evaluator branch. -/
structure EvaluationBranchResult where
  branch : FactoryKey
  evaluator : ImmutableReference
  assessmentId : AssessmentId
  nodeAttemptId : NodeAttemptId
  factoryRunId : FactoryRunId
  inputDigest : FactoryDigest
  contextManifestId : ContextManifestId
  contextDigest : FactoryDigest
  substituted : Bool
  deriving DecidableEq

/-- The run, node attempt and frozen input a result came from. -/
abbrev EvaluationNodeBinding := FactoryRunId × NodeAttemptId × FactoryDigest

def EvaluationBranchResult.node (result : EvaluationBranchResult) : EvaluationNodeBinding :=
  (result.factoryRunId, result.nodeAttemptId, result.inputDigest)

/-- One expected evaluator branch and its progress. -/
structure EvaluationBranch where
  key : FactoryKey
  required : Bool
  state : EvaluationBranchState
  evaluator : ImmutableReference
  substitutes : List ImmutableReference
  result : Option EvaluationBranchResult

namespace EvaluationBranch

def fromReviewBranch (branch : ReviewBranch) : EvaluationBranch :=
  { key := branch.key, required := branch.required, state := .pending
    evaluator := branch.evaluator, substitutes := branch.substitutes, result := none }

def withState (branch : EvaluationBranch) (state : EvaluationBranchState) : EvaluationBranch :=
  { branch with state }

def withResult (branch : EvaluationBranch) (result : EvaluationBranchResult) :
    Except ReviewError EvaluationBranch :=
  if result.branch ≠ branch.key ∨ branch.result.isSome then .error .invalidLifecycle
  else if result.evaluator = branch.evaluator ∧ result.substituted = false then
    .ok { branch with state := .completed, result := some result }
  else if result.evaluator ≠ branch.evaluator ∧ result.substituted = true ∧
      result.evaluator ∈ branch.substitutes then
    .ok { branch with state := .substituted, result := some result }
  else .error .invalidLifecycle

end EvaluationBranch

/-- Branches in the order of their keys, and the quorum of the join. -/
structure EvaluationProgress where
  branches : Table EvaluationBranch.key
  requiredQuorum : Nat

namespace EvaluationProgress

def tryNew (branches : List EvaluationBranch) (requiredQuorum : Nat) :
    Except ReviewError EvaluationProgress :=
  if branches = [] ∨ maxEvaluators < branches.length ∨ requiredQuorum = 0 ∨
      branches.length < requiredQuorum then
    .error .invalidLifecycle
  else do
    let branches ← Table.empty.insertAll (fun _ => .invalidLifecycle) branches
    .ok { branches, requiredQuorum }

/-- The durable fan-out of a plan. -/
def fromPlan (plan : EvaluationPlan) : Except ReviewError EvaluationProgress :=
  tryNew (plan.branches.rows.map EvaluationBranch.fromReviewBranch) plan.requiredQuorum

def replaceBranch (progress : EvaluationProgress) (key : FactoryKey)
    (replacement : EvaluationBranch) : Except ReviewError EvaluationProgress :=
  tryNew (progress.branches.rows.map fun branch => if branch.key = key then replacement else branch)
    progress.requiredQuorum

end EvaluationProgress

/-- Allowed immediate transitions of a branch. -/
def validEvaluationBranchTransition : EvaluationBranchState → EvaluationBranchState → Bool
  | .pending, .attemptCreated | .retryRequested, .attemptCreated => true
  | .retryableFailure, .retryRequested | .retryableFailure, .exhausted => true
  | .attemptCreated, .buildActive => true
  | .buildActive, .resultPending | .buildActive, .completed | .buildActive, .retryableFailure => true
  | .buildActive, .failed | .buildActive, .missing | .buildActive, .cancelled => true
  | .resultPending, .completed | .resultPending, .substituted => true
  | _, _ => false

/-- A result has been accepted in this state. -/
def EvaluationBranchState.isAccepted : EvaluationBranchState → Bool
  | .completed | .substituted => true
  | _ => false

/-- The join waits for a branch in this state. -/
def EvaluationBranchState.isOpen : EvaluationBranchState → Bool
  | .pending | .attemptCreated | .buildActive | .resultPending | .retryableFailure
  | .retryRequested => true
  | _ => false

namespace EvaluationProgress

/-- Advances one branch through an allowed immediate transition. -/
def advanceBranch (progress : EvaluationProgress) (key : FactoryKey)
    (nextState : EvaluationBranchState) : Except ReviewError EvaluationProgress := do
  let current ← okOr (progress.branches.find? key) .invalidLifecycle
  if nextState.isAccepted ∨ validEvaluationBranchTransition current.state nextState = false then
    .error .invalidLifecycle
  else progress.replaceBranch key (current.withState nextState)

/-- Records one schema-valid result after the Build has completed. -/
def recordResult (progress : EvaluationProgress) (result : EvaluationBranchResult) :
    Except ReviewError EvaluationProgress := do
  let current ← okOr (progress.branches.find? result.branch) .invalidLifecycle
  if current.state ≠ .resultPending then .error .invalidLifecycle
  else do
    let replacement ← current.withResult result
    progress.replaceBranch current.key replacement

/-- Results of the branches, in branch order. -/
def results (progress : EvaluationProgress) : List EvaluationBranchResult :=
  progress.branches.rows.filterMap EvaluationBranch.result

end EvaluationProgress

/-- The branch is the one planned, whatever its state. -/
def EvaluationBranch.follows (actual expected : EvaluationBranch) (requireTerminalResults : Bool) :
    Bool :=
  actual.key = expected.key && actual.required = expected.required &&
    actual.evaluator = expected.evaluator && actual.substitutes = expected.substitutes &&
    !(requireTerminalResults && actual.state.isAccepted && actual.result.isNone)

namespace EvaluationProgress

def validatePlanBinding (progress : EvaluationProgress) (plan : EvaluationPlan)
    (requireTerminalResults : Bool) : Except ReviewError Unit := do
  let planned ← fromPlan plan
  if progress.branches.rows.length ≠ planned.branches.rows.length ∨
      progress.requiredQuorum ≠ planned.requiredQuorum ∨
      (progress.branches.rows.zip planned.branches.rows).any (fun (actual, expected) =>
        !actual.follows expected requireTerminalResults) then
    .error .invalidLifecycle
  else .ok ()

/-- Assessments and nodes accepted by a completed join. -/
def decisionBindings (progress : EvaluationProgress) (plan : EvaluationPlan) :
    Except ReviewError (List AssessmentId × List EvaluationNodeBinding) := do
  progress.validatePlanBinding plan false
  if progress.branches.rows.any (·.state.isOpen) ∨
      progress.branches.rows.any (fun branch => branch.required && !branch.state.isAccepted) then
    .error .invalidLifecycle
  else
    let assessmentIds := progress.results.map (·.assessmentId)
    if assessmentIds.length < progress.requiredQuorum ∨ ¬assessmentIds.Nodup then
      .error .invalidLifecycle
    else .ok (assessmentIds, progress.results.map (·.node))

/-! ## What a completed join has checked -/

/-- Progress does not depend on the order its branches are supplied in. -/
theorem tryNew_perm {branches branches' : List EvaluationBranch} {requiredQuorum : Nat}
    {progress : EvaluationProgress} (hperm : branches'.Perm branches)
    (h : tryNew branches requiredQuorum = .ok progress) :
    tryNew branches' requiredQuorum = .ok progress := by
  unfold tryNew at h ⊢
  have hnil : branches' = [] ↔ branches = [] := by
    rw [← length_eq_zero_iff, hperm.length_eq, length_eq_zero_iff]
  simp only [hnil, hperm.length_eq]
  split at h
  · cases h
  · rename_i hshape
    rw [if_neg hshape]
    obtain ⟨rows, hrows, h⟩ := bind_eq_ok.mp h
    exact bind_eq_ok.mpr ⟨rows, Table.insertAll_perm hperm hrows, h⟩

/-- Ordered rows within the bounds are kept as they are. -/
theorem tryNew_rows {branches : Table EvaluationBranch.key} {requiredQuorum : Nat}
    (hle : branches.rows.length ≤ maxEvaluators) (hpos : 0 < requiredQuorum)
    (hquor : requiredQuorum ≤ branches.rows.length) :
    tryNew branches.rows requiredQuorum = .ok ⟨branches, requiredQuorum⟩ := by
  have hnodup : ((branches.rows ++ (Table.empty : Table EvaluationBranch.key).rows).map
      EvaluationBranch.key).Nodup := by
    rw [show (Table.empty : Table EvaluationBranch.key).rows = [] from rfl, append_nil]
    exact branches.keys_nodup
  obtain ⟨rows, hrows⟩ := Table.insertAll_isOk (fun _ => ReviewError.invalidLifecycle) _ _ hnodup
  have hsame : rows = branches :=
    Table.eq_of_perm (by simpa [Table.empty] using Table.insertAll_eq_ok hrows)
  unfold tryNew
  rw [if_neg]
  · exact bind_eq_ok.mpr ⟨branches, hsame ▸ hrows, rfl⟩
  · rw [← length_eq_zero_iff]
    omega

/-- The fan-out of a plan has one pending branch for each of the plan's. -/
theorem fromPlan_eq_ok {plan : EvaluationPlan} (hplan : plan.WellFormed) :
    ∃ planned, fromPlan plan = .ok planned ∧
      planned.branches.rows = plan.branches.rows.map EvaluationBranch.fromReviewBranch ∧
      planned.requiredQuorum = plan.requiredQuorum := by
  let planned : Table EvaluationBranch.key :=
    ⟨plan.branches.rows.map EvaluationBranch.fromReviewBranch,
      pairwise_map.mpr plan.branches.ordered⟩
  have hlen : planned.rows.length = plan.branches.rows.length := length_map _
  exact ⟨⟨planned, plan.requiredQuorum⟩, tryNew_rows (hlen.trans_le hplan.branches_le)
    hplan.quorum_pos (hplan.quorum_le.trans_eq hlen.symm), rfl, rfl⟩

/-- What the join of a plan accepts. -/
structure Joined (progress : EvaluationProgress) (plan : EvaluationPlan) : Prop where
  branches : List.Forall₂
    (fun actual expected => actual.follows (EvaluationBranch.fromReviewBranch expected) false = true)
    progress.branches.rows plan.branches.rows
  quorum : progress.requiredQuorum = plan.requiredQuorum
  settled : ∀ branch ∈ progress.branches.rows, branch.state.isOpen = false ∧
    (branch.required = true → branch.state.isAccepted = true)
  quorum_le : plan.requiredQuorum ≤ progress.results.length
  ids_nodup : (progress.results.map (·.assessmentId)).Nodup

theorem validatePlanBinding_iff {progress : EvaluationProgress} {plan : EvaluationPlan}
    (hplan : plan.WellFormed) (requireTerminalResults : Bool) :
    progress.validatePlanBinding plan requireTerminalResults = .ok () ↔
      List.Forall₂ (fun actual expected =>
          actual.follows (EvaluationBranch.fromReviewBranch expected) requireTerminalResults = true)
        progress.branches.rows plan.branches.rows ∧
      progress.requiredQuorum = plan.requiredQuorum := by
  obtain ⟨planned, hplanned, hrows, hquor⟩ := fromPlan_eq_ok hplan
  rw [← forall₂_map_right_iff (R := fun actual expected =>
      EvaluationBranch.follows actual expected requireTerminalResults = true),
    ← hrows, ← hquor, forall₂_iff_zip]
  unfold validatePlanBinding
  rw [bind_eq_ok]
  simp only [hplanned, Except.ok.injEq, exists_eq_left']
  split
  · rename_i hinvalid
    refine iff_of_false nofun fun ⟨⟨hlen, hfol⟩, hsame⟩ => ?_
    rcases hinvalid with h | h | h
    · exact h hlen
    · exact h hsame
    · obtain ⟨pair, hpair, hnot⟩ := any_eq_true.mp h
      simp [hfol hpair] at hnot
  · rename_i hvalid
    simp only [not_or, ne_eq, not_not, Bool.not_eq_true] at hvalid
    obtain ⟨hlen, hsame, hall⟩ := hvalid
    refine iff_of_true rfl ⟨⟨hlen, fun {actual expected} hpair => ?_⟩, hsame⟩
    simpa using any_eq_false.mp hall (actual, expected) hpair

theorem decisionBindings_iff {progress : EvaluationProgress} {plan : EvaluationPlan}
    (hplan : plan.WellFormed) {bindings : List AssessmentId × List EvaluationNodeBinding} :
    progress.decisionBindings plan = .ok bindings ↔ progress.Joined plan ∧
      bindings = (progress.results.map (·.assessmentId), progress.results.map (·.node)) := by
  unfold decisionBindings
  rw [bind_eq_ok]
  constructor
  · rintro ⟨_, hbinding, h⟩
    obtain ⟨hbranches, hquor⟩ := (validatePlanBinding_iff hplan false).mp hbinding
    split at h
    · cases h
    · rename_i hset
      dsimp only at h
      split at h
      · cases h
      · rename_i hids
        cases h
        simp only [not_or, Bool.not_eq_true, any_eq_false, Bool.and_eq_true, Bool.not_eq_false',
          not_and, not_lt, not_not, length_map] at hset hids
        exact ⟨⟨hbranches, hquor, fun branch hbr =>
          ⟨hset.1 branch hbr, hset.2 branch hbr⟩, hquor ▸ hids.1, hids.2⟩, rfl⟩
  · rintro ⟨hjoined, rfl⟩
    refine ⟨(), (validatePlanBinding_iff hplan false).mpr ⟨hjoined.branches, hjoined.quorum⟩, ?_⟩
    have hopen : progress.branches.rows.any (·.state.isOpen) = false :=
      any_eq_false.mpr fun branch hbr => by simp [(hjoined.settled branch hbr).1]
    have hreqd : progress.branches.rows.any
        (fun branch => branch.required && !branch.state.isAccepted) = false :=
      any_eq_false.mpr fun branch hbr => by
        simpa using (hjoined.settled branch hbr).2
    have hquor : ¬progress.results.length < progress.requiredQuorum := by
      rw [hjoined.quorum]
      exact not_lt.mpr hjoined.quorum_le
    simp [hopen, hreqd, hquor, hjoined.ids_nodup]

end EvaluationProgress

/-! # Runs of a join

Runs of the fan-out of a plan, one transition or accepted result after the
other (octacity-server-factory, `evaluation_progress.rs`).

Main result: `run_traced`, what holds of the branches of every progress a run
of a plan reaches.
-/

/-- One change of a progress. -/
inductive ProgressStep
  | advance (key : FactoryKey) (nextState : EvaluationBranchState)
  | record (result : EvaluationBranchResult)

/-- When a branch accepts a result, and what becomes of it. -/
theorem EvaluationBranch.withResult_eq_ok {branch replacement : EvaluationBranch}
    {result : EvaluationBranchResult} :
    branch.withResult result = .ok replacement ↔
      (result.branch = branch.key ∧ branch.result = none) ∧
      ((result.evaluator = branch.evaluator ∧ result.substituted = false) ∧
          replacement = { branch with state := .completed, result := some result } ∨
        (result.evaluator ≠ branch.evaluator ∧ result.substituted = true ∧
            result.evaluator ∈ branch.substitutes) ∧
          replacement = { branch with state := .substituted, result := some result }) := by
  unfold withResult
  split
  · rename_i hrefused
    refine iff_of_false nofun fun ⟨⟨hkey, hnone⟩, _⟩ => ?_
    simp [hkey, hnone] at hrefused
  · rename_i hopen
    simp only [not_or, not_not, Option.not_isSome_iff_eq_none] at hopen
    rw [and_iff_right hopen]
    split
    · rename_i hprim
      simp [hprim, eq_comm (a := replacement)]
    · rename_i hprim
      split
      · rename_i hsubst
        simp [hsubst, eq_comm (a := replacement)]
      · rename_i hsubst
        simp [hprim, hsubst]

namespace EvaluationProgress

def step (progress : EvaluationProgress) : ProgressStep → Except ReviewError EvaluationProgress
  | .advance key nextState => progress.advanceBranch key nextState
  | .record result => progress.recordResult result

/-- The progress after the steps in turn. -/
def run (progress : EvaluationProgress) : List ProgressStep → Except ReviewError EvaluationProgress
  | [] => .ok progress
  | first :: rest => do
    let next ← progress.step first
    next.run rest

/-- The progress with a branch in place of the one of its key. -/
def replaced (progress : EvaluationProgress) (replacement : EvaluationBranch) :
    EvaluationProgress :=
  { progress with
    branches := progress.branches.mapRows
      (fun branch => if branch.key = replacement.key then replacement else branch) fun branch => by
        split
        · rename_i h
          exact h.symm
        · rfl }

/-! ## The invariant of a run -/

/-- A branch the plan has, with a result only where one was accepted. -/
structure BranchTraced (plan : EvaluationPlan) (branch : EvaluationBranch) : Prop where
  planned : ∃ expected ∈ plan.branches.rows, branch.key = expected.key ∧
    branch.evaluator = expected.evaluator ∧ branch.substitutes = expected.substitutes
  accepted : ∀ result, branch.result = some result →
    result.branch = branch.key ∧ branch.state.isAccepted = true ∧
      (result.evaluator = branch.evaluator ∨ result.evaluator ∈ branch.substitutes)

/-- What every progress of a run keeps. -/
structure Traced (plan : EvaluationPlan) (progress : EvaluationProgress) : Prop where
  length_le : progress.branches.rows.length ≤ maxEvaluators
  quorum_pos : 0 < progress.requiredQuorum
  quorum_le : progress.requiredQuorum ≤ progress.branches.rows.length
  branches : ∀ branch ∈ progress.branches.rows, BranchTraced plan branch

section

variable {plan : EvaluationPlan} {progress : EvaluationProgress} (htraced : progress.Traced plan)

include htraced

theorem replaceBranch_eq (replacement : EvaluationBranch) :
    progress.replaceBranch replacement.key replacement = .ok (progress.replaced replacement) := by
  have hlen : (progress.replaced replacement).branches.rows.length =
      progress.branches.rows.length := length_map _
  exact tryNew_rows (hlen.trans_le htraced.length_le) htraced.quorum_pos
    (htraced.quorum_le.trans_eq hlen.symm)

theorem Traced.replaced {replacement : EvaluationBranch}
    (hrepl : BranchTraced plan replacement) :
    (progress.replaced replacement).Traced plan := by
  have hlen : (progress.replaced replacement).branches.rows.length =
      progress.branches.rows.length := length_map _
  refine ⟨hlen.trans_le htraced.length_le, htraced.quorum_pos,
    htraced.quorum_le.trans_eq hlen.symm, fun branch hbr => ?_⟩
  obtain ⟨before, hbef, rfl⟩ := mem_map.mp hbr
  split
  · exact hrepl
  · exact htraced.branches before hbef

end

/-- An accepted branch moves no further. -/
theorem transition_of_accepted {previous next : EvaluationBranchState}
    (h : validEvaluationBranchTransition previous next = true) : previous.isAccepted = false := by
  cases previous <;> first | rfl | (cases next <;> cases h)

section

variable {plan : EvaluationPlan} {progress next : EvaluationProgress}
  (htraced : progress.Traced plan)

include htraced

/-- What one step can do. -/
theorem step_eq_ok_iff {change : ProgressStep} : progress.step change = .ok next ↔
      (∃ key nextState current, change = .advance key nextState ∧
        progress.branches.find? key = some current ∧ nextState.isAccepted = false ∧
        validEvaluationBranchTransition current.state nextState = true ∧
        next = progress.replaced (current.withState nextState)) ∨
      ∃ result current replacement, change = .record result ∧
        progress.branches.find? result.branch = some current ∧ current.state = .resultPending ∧
        current.withResult result = .ok replacement ∧ next = progress.replaced replacement := by
  cases change with
  | advance key nextState =>
    have hreplace : ∀ current, progress.branches.find? key = some current →
        progress.replaceBranch key (current.withState nextState) =
          .ok (progress.replaced (current.withState nextState)) := by
      intro current hcur
      obtain rfl : current.key = key := Table.key_of_find? hcur
      exact replaceBranch_eq htraced (current.withState nextState)
    unfold step advanceBranch
    rw [bind_eq_ok]
    constructor
    · rintro ⟨current, hcur, h⟩
      rw [okOr_eq_ok] at hcur
      split at h
      · cases h
      · rename_i hallow
        simp only [not_or, Bool.not_eq_true, Bool.not_eq_false] at hallow
        rw [hreplace current hcur] at h
        cases h
        exact .inl ⟨key, nextState, current, rfl, hcur, hallow.1, hallow.2, rfl⟩
    · rintro (⟨_, _, current, hsame, hcur, hacc, hallow, rfl⟩ | ⟨_, _, _, hsame, _⟩)
      · cases hsame
        refine ⟨current, okOr_eq_ok.mpr hcur, ?_⟩
        rw [if_neg (by simp [hacc, hallow])]
        exact hreplace current hcur
      · cases hsame
  | record result =>
    have hreplace : ∀ current replacement : EvaluationBranch,
        current.withResult result = .ok replacement →
        progress.replaceBranch current.key replacement = .ok (progress.replaced replacement) := by
      intro current replacement hres
      have hkey : replacement.key = current.key := by
        rcases (EvaluationBranch.withResult_eq_ok.mp hres).2 with ⟨_, rfl⟩ | ⟨_, rfl⟩ <;> rfl
      rw [← hkey]
      exact replaceBranch_eq htraced replacement
    unfold step recordResult
    rw [bind_eq_ok]
    constructor
    · rintro ⟨current, hcur, h⟩
      rw [okOr_eq_ok] at hcur
      split at h
      · cases h
      · rename_i hpend
        obtain ⟨replacement, hres, h⟩ := bind_eq_ok.mp h
        rw [hreplace current replacement hres] at h
        cases h
        exact .inr ⟨result, current, replacement, rfl, hcur, not_not.mp hpend, hres, rfl⟩
    · rintro (⟨_, _, _, hsame, _⟩ | ⟨_, current, replacement, hsame, hcur, hpend, hres, rfl⟩)
      · cases hsame
      · cases hsame
        refine ⟨current, okOr_eq_ok.mpr hcur, ?_⟩
        rw [if_neg (not_not.mpr hpend)]
        exact bind_eq_ok.mpr ⟨replacement, hres, hreplace current replacement hres⟩

/-- One step keeps the invariant. -/
theorem step_traced {change : ProgressStep} (h : progress.step change = .ok next) :
    next.Traced plan := by
  rcases (step_eq_ok_iff htraced).mp h with
    ⟨key, nextState, current, -, hcur, -, hallow, rfl⟩ |
    ⟨result, current, replacement, -, hcur, -, hres, rfl⟩
  · have hbr := htraced.branches current (Table.mem_of_find? hcur)
    refine htraced.replaced ⟨hbr.planned, fun result hres => ?_⟩
    have hclos := (hbr.accepted result hres).2.1
    rw [transition_of_accepted hallow] at hclos
    cases hclos
  · have hbr := htraced.branches current (Table.mem_of_find? hcur)
    obtain ⟨⟨hkey, _⟩, ⟨hprim, rfl⟩ | ⟨hsubst, rfl⟩⟩ :=
      EvaluationBranch.withResult_eq_ok.mp hres
    · refine htraced.replaced ⟨hbr.planned, fun accepted hacc => ?_⟩
      cases hacc
      exact ⟨hkey, rfl, .inl hprim.1⟩
    · refine htraced.replaced ⟨hbr.planned, fun accepted hacc => ?_⟩
      cases hacc
      exact ⟨hkey, rfl, .inr hsubst.2.2⟩

end

/-- A run keeps the invariant. -/
theorem run_traced {plan : EvaluationPlan} {steps : List ProgressStep}
    {progress final : EvaluationProgress} (htraced : progress.Traced plan)
    (h : progress.run steps = .ok final) : final.Traced plan := by
  induction steps generalizing progress with
  | nil =>
    cases h
    exact htraced
  | cons first rest ih =>
    obtain ⟨next, hnext, h⟩ := bind_eq_ok.mp h
    exact ih (step_traced htraced hnext) h

theorem fromPlan_traced {plan : EvaluationPlan} {planned : EvaluationProgress}
    (hplan : plan.WellFormed) (h : fromPlan plan = .ok planned) : planned.Traced plan := by
  obtain ⟨planned', hplanned', hrows, hquor⟩ := fromPlan_eq_ok hplan
  cases h.symm.trans hplanned'
  have hlen : planned.branches.rows.length = plan.branches.rows.length := by
    rw [hrows, length_map]
  refine ⟨hlen.trans_le hplan.branches_le, hquor ▸ hplan.quorum_pos,
    hlen ▸ hquor ▸ hplan.quorum_le, fun branch hbr => ?_⟩
  rw [hrows] at hbr
  obtain ⟨expected, hexp, rfl⟩ := mem_map.mp hbr
  exact ⟨⟨expected, hexp, rfl, rfl, rfl⟩, nofun⟩

end EvaluationProgress

end OctaCity.Factory
