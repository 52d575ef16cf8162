/-
  OctaCity.Factory.Review.Substitution

  One branch answered by a declared substitute in place of its primary
  evaluator (octacity-server-factory, `evaluation_progress.rs`).

  Branches, quorum and join speak of branch keys, so the run with the
  substitute's result completes the same join.
-/
import OctaCity.Factory.Review.Progress

namespace OctaCity.Factory

open EvaluationBranch Lib List

/-! ## The run with the other result -/

/-- The other result in place of the primary's. -/
def EvaluationBranchResult.exchanged (result primary substitute : EvaluationBranchResult) :
    EvaluationBranchResult :=
  if result = primary then substitute else result

section

variable (primary substitute : EvaluationBranchResult)

def ProgressStep.exchanged : ProgressStep → ProgressStep
  | .advance key nextState => .advance key nextState
  | .record result => .record (result.exchanged primary substitute)

/-- The branch, substituted where it accepted the primary's result. -/
def EvaluationBranch.exchanged (branch : EvaluationBranch) : EvaluationBranch :=
  if branch.result = some primary then
    { branch with state := .substituted, result := some substitute }
  else branch

theorem EvaluationBranch.exchanged_key (branch : EvaluationBranch) :
    (branch.exchanged primary substitute).key = branch.key := by
  unfold exchanged
  split <;> rfl

def EvaluationProgress.exchanged (progress : EvaluationProgress) : EvaluationProgress :=
  { progress with
    branches := progress.branches.mapRows (EvaluationBranch.exchanged primary substitute)
      (exchanged_key primary substitute) }

/-- Results of the primary evaluator and of a declared substitute of one branch. -/
structure EvaluationPlan.Substitutes (plan : EvaluationPlan) : Prop where
  branch : ∃ branch ∈ plan.branches.rows, primary.branch = branch.key ∧
    primary.evaluator = branch.evaluator ∧ substitute.evaluator ∈ branch.substitutes
  same_branch : substitute.branch = primary.branch
  primary_unsubstituted : primary.substituted = false
  substituted : substitute.substituted = true

end

variable {primary substitute : EvaluationBranchResult} {plan : EvaluationPlan}

@[simp] theorem EvaluationBranchResult.exchanged_self :
    primary.exchanged primary substitute = substitute := by
  rw [exchanged, if_pos rfl]

variable {result : EvaluationBranchResult}

theorem EvaluationBranchResult.exchanged_of_ne
    (h : result ≠ primary) : result.exchanged primary substitute = result := by
  rw [exchanged, if_neg h]

theorem EvaluationBranch.exchanged_of_ne {branch : EvaluationBranch}
    (h : branch.result ≠ some primary) : branch.exchanged primary substitute = branch :=
  if_neg h

theorem EvaluationPlan.WellFormed.branch_eq (hplan : plan.WellFormed) {b b' : ReviewBranch}
    (hb : b ∈ plan.branches.rows) (hb' : b' ∈ plan.branches.rows)
    {evaluator evaluator' : ImmutableReference} (he : evaluator ∈ b.evaluators)
    (he' : evaluator' ∈ b'.evaluators) (h : evaluator.identity = evaluator'.identity) : b = b' := by
  have hnodup : (plan.branches.rows.flatMap fun branch =>
      branch.evaluators.map (·.identity)).Nodup := by
    have := hplan.identities_nodup
    rwa [EvaluationPlan.identities, branchEvaluators, map_flatMap] at this
  by_contra hne
  have hsymm : Std.Symm (Function.onFun List.Disjoint fun branch : ReviewBranch =>
      branch.evaluators.map (·.identity)) := ⟨fun _ _ h => h.symm⟩
  exact (nodup_flatMap.mp hnodup).2.forall hb hb' hne (mem_map_of_mem he)
    (h ▸ mem_map_of_mem he')

theorem EvaluationPlan.WellFormed.evaluator_ne (hplan : plan.WellFormed) {branch : ReviewBranch}
    (hbr : branch ∈ plan.branches.rows) {evaluator : ImmutableReference}
    (h : evaluator ∈ branch.substitutes) : evaluator.identity ≠ branch.evaluator.identity := by
  have hnodup := hplan.identities_nodup
  rw [EvaluationPlan.identities, branchEvaluators, map_flatMap] at hnodup
  have hbranchNodup := (nodup_flatMap.mp hnodup).1 branch hbr
  rw [ReviewBranch.evaluators, map_cons, nodup_cons] at hbranchNodup
  exact fun hsame => hbranchNodup.1 (hsame ▸ mem_map_of_mem h)

/-- The substitute's result is one its branch accepts. -/
theorem EvaluationPlan.Substitutes.declared (hsubsts : plan.Substitutes primary substitute)
    (hplan : plan.WellFormed) {current : EvaluationBranch}
    (htraced : EvaluationProgress.BranchTraced plan current) (hkey : primary.branch = current.key) :
    substitute.evaluator ≠ current.evaluator ∧ substitute.substituted = true ∧
      substitute.evaluator ∈ current.substitutes := by
  obtain ⟨expected, hexp, hexpectedKey, hevaluator, hsubstitutesEq⟩ := htraced.planned
  obtain ⟨branch, hplanned, hbranchKey, -, hallow⟩ := hsubsts.branch
  obtain rfl : expected = branch := plan.branches.eq_of_key_eq hexp hplanned
    (hexpectedKey.symm.trans (hkey.symm.trans hbranchKey))
  refine ⟨fun hsame => ?_, hsubsts.substituted, hsubstitutesEq ▸ hallow⟩
  exact hplan.evaluator_ne hplanned hallow
    (congrArg ImmutableReference.identity (hsame.trans hevaluator))

open EvaluationBranchResult (exchanged_self exchanged_of_ne)

namespace EvaluationProgress

theorem exchanged_find? (progress : EvaluationProgress) (key : FactoryKey) :
    (progress.exchanged primary substitute).branches.find? key =
      (progress.branches.find? key).map (EvaluationBranch.exchanged primary substitute) :=
  Table.mapRows_find? _ _ (exchanged_key primary substitute) _

theorem exchanged_replaced (progress : EvaluationProgress) (replacement : EvaluationBranch) :
    (progress.exchanged primary substitute).replaced (replacement.exchanged primary substitute) =
      (progress.replaced replacement).exchanged primary substitute := by
  unfold EvaluationProgress.exchanged EvaluationProgress.replaced
  dsimp only
  rw [Table.mapRows_mapRows, Table.mapRows_mapRows]
  congr 1
  apply Table.ext
  simp only [Table.mapRows_rows, exchanged_key]
  refine map_congr_left fun branch _ => ?_
  split <;> rfl

variable {progress : EvaluationProgress}

/-- The exchanged progress of a run is one a run could have reached. -/
theorem Traced.exchanged
    (htraced : progress.Traced plan) (hsubsts : plan.Substitutes primary substitute) :
    (progress.exchanged primary substitute).Traced plan := by
  have hlen : (progress.exchanged primary substitute).branches.rows.length =
      progress.branches.rows.length := length_map _
  refine ⟨hlen.trans_le htraced.length_le, htraced.quorum_pos,
    htraced.quorum_le.trans_eq hlen.symm, fun branch hbr => ?_⟩
  obtain ⟨before, hbef, rfl⟩ := mem_map.mp hbr
  have hbranchTraced := htraced.branches before hbef
  by_cases hprim : before.result = some primary
  · have hexchanged : before.exchanged primary substitute =
        { before with state := .substituted, result := some substitute } := if_pos hprim
    rw [hexchanged]
    refine ⟨hbranchTraced.planned, fun result hres => ?_⟩
    cases hres
    obtain ⟨expected, hexp, hkey, -, hsubstitutesEq⟩ := hbranchTraced.planned
    obtain ⟨branch, hplanned, hbranchKey, -, hallow⟩ := hsubsts.branch
    have hprimaryKey : primary.branch = before.key := (hbranchTraced.accepted primary hprim).1
    have hsame : expected = branch :=
      plan.branches.eq_of_key_eq hexp hplanned (hkey.symm.trans (hprimaryKey.symm.trans hbranchKey))
    refine ⟨hsubsts.same_branch.trans hprimaryKey, rfl, .inr ?_⟩
    rw [hsubstitutesEq, hsame]
    exact hallow
  · rw [exchanged_of_ne hprim]
    exact hbranchTraced

section

variable (hplan : plan.WellFormed) (htraced : progress.Traced plan)
  (hsubsts : plan.Substitutes primary substitute)

include hplan htraced hsubsts

/-- One step of the run with the other result. -/
theorem step_exchanged {next : EvaluationProgress} {change : ProgressStep}
    (h : progress.step change = .ok next) :
    (progress.exchanged primary substitute).step (change.exchanged primary substitute) =
      .ok (next.exchanged primary substitute) := by
  refine (step_eq_ok_iff (htraced.exchanged hsubsts)).mpr ?_
  rcases (step_eq_ok_iff htraced).mp h with
    ⟨key, nextState, current, rfl, hcur, hacc, hallow, rfl⟩ |
    ⟨result, current, replacement, rfl, hcur, hpend, hres, rfl⟩
  · have hbr := htraced.branches current (Table.mem_of_find? hcur)
    have hopen : current.result ≠ some primary := fun hprim => by
      have hclos := (hbr.accepted primary hprim).2.1
      rw [transition_of_accepted hallow] at hclos
      cases hclos
    have hcur' : (progress.exchanged primary substitute).branches.find? key = some current := by
      rw [exchanged_find?, hcur, Option.map_some, exchanged_of_ne hopen]
    have hadvanced : (current.withState nextState).exchanged primary substitute =
        current.withState nextState := exchanged_of_ne hopen
    refine .inl ⟨key, nextState, current, rfl, hcur', hacc, hallow, ?_⟩
    rw [← exchanged_replaced, hadvanced]
  · obtain ⟨⟨hkey, hnone⟩, haccept⟩ := withResult_eq_ok.mp hres
    have hopen : current.result ≠ some primary := by
      rw [hnone]
      nofun
    have hbr := htraced.branches current (Table.mem_of_find? hcur)
    have hcur' : (progress.exchanged primary substitute).branches.find? result.branch =
        some current := by
      rw [exchanged_find?, hcur, Option.map_some, exchanged_of_ne hopen]
    by_cases hprim : result = primary
    · subst hprim
      have hrepl : replacement = { current with state := .completed, result := some result } := by
        rcases haccept with ⟨_, h⟩ | ⟨⟨_, hmarked, _⟩, _⟩
        · exact h
        · cases hsubsts.primary_unsubstituted.symm.trans hmarked
      have hsubst : current.withResult substitute =
          .ok { current with state := .substituted, result := some substitute } :=
        withResult_eq_ok.mpr ⟨⟨hsubsts.same_branch.trans hkey, hnone⟩,
          .inr ⟨hsubsts.declared hplan hbr hkey, rfl⟩⟩
      have hexchanged : replacement.exchanged result substitute =
          { current with state := .substituted, result := some substitute } := by
        rw [hrepl]
        exact if_pos rfl
      refine .inr ⟨substitute, current, _, ?_, hsubsts.same_branch ▸ hcur', hpend,
        hsubst, ?_⟩
      · exact congrArg ProgressStep.record exchanged_self
      · rw [← exchanged_replaced, hexchanged]
    · have hresultOf : replacement.result = some result := by
        rcases haccept with ⟨_, rfl⟩ | ⟨_, rfl⟩ <;> rfl
      have hexchanged : replacement.exchanged primary substitute = replacement :=
        exchanged_of_ne (by simpa [hresultOf] using hprim)
      refine .inr ⟨result, current, replacement, ?_, hcur', hpend, hres, ?_⟩
      · exact congrArg ProgressStep.record (exchanged_of_ne hprim)
      · rw [← exchanged_replaced, hexchanged]

/-- The run with the other result goes through and ends in the same progress but for it. -/
theorem run_exchanged {steps : List ProgressStep} {final : EvaluationProgress}
    (h : progress.run steps = .ok final) :
    (progress.exchanged primary substitute).run (steps.map (·.exchanged primary substitute)) =
      .ok (final.exchanged primary substitute) := by
  induction steps generalizing progress with
  | nil =>
    cases h
    rfl
  | cons first rest ih =>
    obtain ⟨next, hnext, h⟩ := bind_eq_ok.mp h
    exact bind_eq_ok.mpr ⟨_, step_exchanged hplan htraced hsubsts hnext,
      ih (step_traced htraced hnext) h⟩

end

/-- The fan-out of a plan has no result to exchange. -/
theorem fromPlan_exchanged {planned : EvaluationProgress} (hplan : plan.WellFormed)
    (h : fromPlan plan = .ok planned) : planned.exchanged primary substitute = planned := by
  obtain ⟨planned', hplanned', hrows, -⟩ := fromPlan_eq_ok hplan
  cases h.symm.trans hplanned'
  unfold EvaluationProgress.exchanged
  congr 1
  apply Table.ext
  rw [Table.mapRows_rows]
  refine (map_congr_left fun branch hbr => ?_).trans (map_id _)
  rw [hrows] at hbr
  obtain ⟨expected, _, rfl⟩ := mem_map.mp hbr
  exact exchanged_of_ne nofun

/-! ## The join of the other run -/

theorem exchanged_results (progress : EvaluationProgress) :
    (progress.exchanged primary substitute).results =
      progress.results.map (·.exchanged primary substitute) := by
  have hbr : ∀ branch : EvaluationBranch, (branch.exchanged primary substitute).result =
      branch.result.map (·.exchanged primary substitute) := by
    intro branch
    by_cases hprim : branch.result = some primary
    · rw [EvaluationBranch.exchanged, if_pos hprim, hprim, Option.map_some,
        exchanged_self]
    · rw [exchanged_of_ne hprim]
      cases hres : branch.result with
      | none => rfl
      | some result =>
        rw [hres] at hprim
        rw [Option.map_some,
          exchanged_of_ne fun h => hprim (congrArg some h)]
  unfold EvaluationProgress.results EvaluationProgress.exchanged
  rw [Table.mapRows_rows, filterMap_map, map_filterMap]
  exact filterMap_congr fun branch _ => hbr branch

/-- The join accepts the other result, under an identifier no other result has. -/
theorem Joined.exchanged (hjoined : progress.Joined plan)
    (hfresh : ∀ result ∈ progress.results, result ≠ primary →
      result.assessmentId ≠ substitute.assessmentId) :
    (progress.exchanged primary substitute).Joined plan := by
  have hfol : ∀ (branch expected : EvaluationBranch),
      (branch.exchanged primary substitute).follows expected false =
        branch.follows expected false := by
    intro branch expected
    unfold EvaluationBranch.exchanged
    split <;> simp [EvaluationBranch.follows]
  refine ⟨?_, hjoined.quorum, ?_, ?_, ?_⟩
  · refine forall₂_map_left_iff.mpr (hjoined.branches.imp fun branch expected h => ?_)
    rw [hfol]
    exact h
  · intro branch hbr
    obtain ⟨before, hbef, rfl⟩ := mem_map.mp hbr
    unfold EvaluationBranch.exchanged
    split
    · exact ⟨rfl, fun _ => rfl⟩
    · exact hjoined.settled before hbef
  · rw [exchanged_results, length_map]
    exact hjoined.quorum_le
  · rw [exchanged_results, map_map]
    have hresults : progress.results.Nodup := hjoined.ids_nodup.of_map _
    refine hresults.map_on fun result hres other hother h => ?_
    simp only [Function.comp_apply] at h
    by_cases hprim : result = primary
    · by_cases hprim' : other = primary
      · rw [hprim, hprim']
      · rw [hprim, exchanged_self,
          exchanged_of_ne hprim'] at h
        exact absurd h.symm (hfresh other hother hprim')
    · rw [exchanged_of_ne hprim] at h
      by_cases hprim' : other = primary
      · rw [hprim', exchanged_self] at h
        exact absurd h (hfresh result hres hprim)
      · rw [exchanged_of_ne hprim'] at h
        exact inj_on_of_nodup_map hjoined.ids_nodup hres hother h

theorem Traced.result_eq (htraced : progress.Traced plan)
    {other : EvaluationBranchResult} (hres : result ∈ progress.results)
    (hother : other ∈ progress.results) (h : result.branch = other.branch) : result = other := by
  obtain ⟨branch, hbr, hresultOf⟩ := mem_filterMap.mp hres
  obtain ⟨branch', hbr', hotherOf⟩ := mem_filterMap.mp hother
  have hkey := ((htraced.branches branch hbr).accepted result hresultOf).1
  have hkey' := ((htraced.branches branch' hbr').accepted other hotherOf).1
  obtain rfl : branch = branch' := progress.branches.eq_of_key_eq hbr hbr'
    (hkey.symm.trans (h.trans hkey'))
  exact Option.some.inj (hresultOf.symm.trans hotherOf)

theorem Traced.result_planned (htraced : progress.Traced plan)
    (hres : result ∈ progress.results) :
    ∃ branch ∈ plan.branches.rows, result.branch = branch.key ∧
      result.evaluator ∈ branch.evaluators := by
  obtain ⟨branch, hbr, hresultOf⟩ := mem_filterMap.mp hres
  obtain ⟨⟨expected, hexp, hkey, hevaluator, hsubsts⟩, hacc⟩ :=
    htraced.branches branch hbr
  obtain ⟨hbranchKey, -, hnamed⟩ := hacc result hresultOf
  refine ⟨expected, hexp, hbranchKey.trans hkey, ?_⟩
  rwa [hevaluator, hsubsts, ← mem_cons] at hnamed

end EvaluationProgress

end OctaCity.Factory
