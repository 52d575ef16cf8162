/-
  OctaCity.Factory.Flow.Expansion

  Attempts of a run and of the Flow Runs nested in it.  Once it is known how
  often one Flow Run can attempt each of its nodes, nested calls are paid by
  the attempts that make them, and the weights of all Flow Runs telescope to
  the weight of the root.
-/
import OctaCity.Factory.Flow.Visits

namespace OctaCity.Factory.Flow

open FlowDefinition FlowInterpreter Lib List Option

/-! ## Weights -/

/-- Attempts below a definition when each node is attempted `visits` times in
    one Flow Run, with fuel for the nesting depth. -/
def expansion (closure : PinnedFlowDefinitionClosure)
    (visits : FlowDefinition → FlowNodeDefinition → Nat) : Nat → FlowDefinitionRef → Nat
  | 0, _ => 0
  | fuel + 1, reference =>
    match closure.definition reference with
    | none => 0
    | some definition => (definition.nodes.map fun node =>
        visits definition node *
          (1 + ((node.subflow.map (expansion closure visits fuel)).getD 0))).sum

/-- Calls below the definition are nested less than `fuel` deep. -/
def NestsWithin (closure : PinnedFlowDefinitionClosure) : Nat → FlowDefinitionRef → Prop
  | 0, _ => False
  | fuel + 1, reference => ∃ definition, closure.definition reference = some definition ∧
      ∀ child ∈ definition.subflows, NestsWithin closure fuel child

variable {fuel : Nat}

variable {node : FlowNodeDefinition} {nested : FlowDefinitionRef} {attempt : NodeAttempt}

section Weights

variable {closure : PinnedFlowDefinitionClosure}
  {visits : FlowDefinition → FlowNodeDefinition → Nat}

variable {reference : FlowDefinitionRef}

theorem NestsWithin.succ
    (h : NestsWithin closure fuel reference) : NestsWithin closure (fuel + 1) reference := by
  induction fuel generalizing reference with
  | zero => cases h
  | succ fuel ih =>
    obtain ⟨definition, hdef, hchildren⟩ := h
    exact ⟨definition, hdef, fun child hchild => ih (hchildren child hchild)⟩

theorem FlowDefinition.mem_subflows {definition : FlowDefinition} (hnode : node ∈ definition.nodes)
    (hnested : node.subflow = some nested) : nested ∈ definition.subflows :=
  mem_filterMap.mpr ⟨node, hnode, hnested⟩

/-- More fuel than the nesting needs changes nothing. -/
theorem expansion_succ (h : NestsWithin closure fuel reference) :
    expansion closure visits (fuel + 1) reference = expansion closure visits fuel reference := by
  induction fuel generalizing reference with
  | zero => cases h
  | succ fuel ih =>
    obtain ⟨definition, hdef, hchildren⟩ := h
    rw [expansion, expansion, hdef]
    simp only
    refine congrArg List.sum (map_congr_left fun node hnode => ?_)
    cases hnested : node.subflow with
    | none => rfl
    | some nested =>
      simp only [map_some, getD_some]
      rw [ih (hchildren nested (mem_subflows hnode hnested))]

theorem NestsWithin.mono {bound : Nat}
    (h : NestsWithin closure fuel reference) (hle : fuel ≤ bound) :
    NestsWithin closure bound reference := by
  induction hle with
  | refl => exact h
  | step _ ih => exact ih.succ

/-- Every called definition was measured, and the depth counts it. -/
theorem foldlM_measured {children : List FlowDefinitionRef} {start total : Nat × Nat}
    (h : children.foldlM (fun (measured : Nat × Nat) child => do
        let expanded ← expandedMeasurements closure fuel child
        addExpansion measured.1 measured.2 expanded.1 expanded.2) start = .ok total) :
    start.2 ≤ total.2 ∧ ∀ child ∈ children, ∃ expanded,
      expandedMeasurements closure fuel child = .ok expanded ∧ expanded.2 + 1 ≤ total.2 := by
  induction children generalizing start with
  | nil =>
    cases h
    exact ⟨le_refl _, by rintro child ⟨⟩⟩
  | cons first rest ih =>
    rw [foldlM_cons] at h
    obtain ⟨mid, hmid, h⟩ := bind_eq_ok.mp h
    obtain ⟨expanded, hexpanded, hadd⟩ := bind_eq_ok.mp hmid
    obtain ⟨_, -, hadd⟩ := bind_eq_ok.mp hadd
    obtain ⟨depth, hdepth, hadd⟩ := bind_eq_ok.mp hadd
    cases hadd
    obtain ⟨hle, hrest⟩ := ih h
    have hstart : start.2 ≤ total.2 := le_trans (le_max_left _ _) hle
    have hchild : depth ≤ total.2 := le_trans (le_max_right _ _) hle
    refine ⟨hstart, ?_⟩
    intro child hmem
    rcases mem_cons.mp hmem with rfl | hmem
    · refine ⟨expanded, hexpanded, ?_⟩
      rwa [← checkedAdd_eq_some (okOr_eq_ok.mp hdepth)]
    · exact hrest child hmem

variable {measured : Nat × Nat}

section

variable (h : expandedMeasurements closure fuel reference = .ok measured)

include h

/-- Measured definitions nest within their measured depth. -/
theorem NestsWithin.of_depth : NestsWithin closure measured.2 reference := by
  induction fuel generalizing reference measured with
  | zero => cases h
  | succ fuel ih =>
    rw [expandedMeasurements] at h
    obtain ⟨definition, hdef, h⟩ := bind_eq_ok.mp h
    obtain ⟨_, -, h⟩ := bind_eq_ok.mp h
    obtain ⟨_, -, h⟩ := bind_eq_ok.mp h
    obtain ⟨total, hfold, h⟩ := bind_eq_ok.mp h
    obtain ⟨_, -, h⟩ := bind_eq_ok.mp h
    cases h
    obtain ⟨hpos, hchildren⟩ := foldlM_measured hfold
    obtain ⟨depth, hdepth⟩ : ∃ depth, total.2 = depth + 1 := ⟨total.2 - 1, by omega⟩
    rw [hdepth]
    refine ⟨definition, okOr_eq_ok.mp hdef, ?_⟩
    intro child hchild
    obtain ⟨expanded, hexpanded, hle⟩ := hchildren child hchild
    exact (ih hexpanded).mono (by omega)

/-- Measured definitions nest within the fuel they were measured with. -/
theorem NestsWithin.of_measured : NestsWithin closure fuel reference := by
  induction fuel generalizing reference measured with
  | zero => cases h
  | succ fuel ih =>
    rw [expandedMeasurements] at h
    obtain ⟨definition, hdef, h⟩ := bind_eq_ok.mp h
    obtain ⟨_, -, h⟩ := bind_eq_ok.mp h
    obtain ⟨_, -, h⟩ := bind_eq_ok.mp h
    obtain ⟨total, hfold, -⟩ := bind_eq_ok.mp h
    refine ⟨definition, okOr_eq_ok.mp hdef, ?_⟩
    intro child hchild
    obtain ⟨expanded, hexpanded, -⟩ := (foldlM_measured hfold).2 child hchild
    exact ih hexpanded

end

end Weights

/-! ## Nested Flow Runs -/

section Nested

variable {interpreter : FlowInterpreter} {root : FlowRun} {history next : FlowRuntimeHistory}
  {flow : FlowRun} {definition : FlowDefinition}

theorem nestedDefinition_eq_some {validated : ValidatedFlowDefinitionClosure}
    (hdef : validated.closure.definition flow.definition = some definition)
    (h : nestedDefinition validated flow attempt = some nested) :
    ∃ node, definition.node attempt.nodeKey = some node ∧ node.subflow = some nested := by
  unfold nestedDefinition at h
  obtain ⟨found, hfound, h⟩ := bind_eq_some_iff.mp h
  rw [hdef] at hfound
  cases hfound
  obtain ⟨node, hnode, h⟩ := bind_eq_some_iff.mp h
  split at h
  · exact ⟨node, hnode, h⟩
  · cases h

theorem nestsWithin_of_run {allowed : FlowRuntimeHistory → FlowCommand → FlowRuntimeHistory → Bool}
    {commands : List FlowCommand}
    (hroot : NestsWithin interpreter.validated.closure fuel root.definition)
    (hrun : interpreter.run allowed root commands = some history) : ∀ flow ∈ history.flowRuns,
      NestsWithin interpreter.validated.closure fuel flow.definition := by
  refine run_induction (P := fun history => ∀ flow ∈ history.flowRuns,
    NestsWithin interpreter.validated.closure fuel flow.definition) ?_ ?_ hrun
  · intro flow hflow
    rw [mem_singleton.mp hflow]
    exact hroot
  · intro current command next hcur _ hnext
    cases step_cases hnext with
    | @call attempt parent nested child _ hpar _ hnested =>
      intro flow hflow
      rcases mem_append.mp hflow with hflow | hflow
      · exact hcur flow hflow
      · rw [mem_singleton.mp hflow]
        cases fuel with
        | zero => cases hcur parent hpar
        | succ fuel =>
          obtain ⟨definition, hdef, hchildren⟩ := hcur parent hpar
          obtain ⟨node, hnode, hsflow⟩ := nestedDefinition_eq_some hdef hnested
          exact (hchildren nested (mem_subflows (node_mem hnode).1
            hsflow)).succ
    | dispatch => exact hcur
    | complete => exact hcur
    | stop => exact hcur
    | retry => exact hcur
    | restart => exact hcur

end Nested

/-! ## The weight of a run -/

section Accounting

variable {validated : ValidatedFlowDefinitionClosure} {root : FlowRun}
  {history : FlowRuntimeHistory} {flow : FlowRun} {definition : FlowDefinition}
  {visits : FlowDefinition → FlowNodeDefinition → Nat}

/-- The weight of what an attempt has called. -/
def FlowRuntimeHistory.callWeight (history : FlowRuntimeHistory)
    (weight : FlowDefinitionRef → Nat) (attempt : NodeAttempt) : Nat :=
  ∑ child ∈ history.flowRuns.toFinset.filter
    fun row => row.parent = some ⟨attempt.flowRunId, attempt.id⟩, weight child.definition

section

variable (h : RunRows validated root history)

include h

section

variable (hflow : flow ∈ history.flowRuns)
  (hdef : validated.closure.definition flow.definition = some definition)

include hflow hdef

/-- An attempt calls at most the subflow of its node, once. -/
theorem RunRows.callWeight_le (hatt : attempt ∈ history.attempts)
    (howner : attempt.flowRunId = flow.id) (hnode : definition.node attempt.nodeKey = some node)
    (weight : FlowDefinitionRef → Nat) :
    history.callWeight weight attempt ≤ (node.subflow.map weight).getD 0 := by
  unfold FlowRuntimeHistory.callWeight
  rcases Finset.eq_empty_or_nonempty (history.flowRuns.toFinset.filter
    fun row => row.parent = some ⟨attempt.flowRunId, attempt.id⟩) with hempty | ⟨child, hchild⟩
  · rw [hempty, Finset.sum_empty]
    exact Nat.zero_le _
  · obtain ⟨hmem, hpar⟩ := Finset.mem_filter.mp hchild
    have hmem := mem_toFinset.mp hmem
    have honly : (history.flowRuns.toFinset.filter
        fun row => row.parent = some ⟨attempt.flowRunId, attempt.id⟩) = {child} := by
      refine Finset.eq_singleton_iff_unique_mem.mpr ⟨hchild, fun other hother => ?_⟩
      obtain ⟨hotherMem, hotherParent⟩ := Finset.mem_filter.mp hother
      exact inj_on_of_nodup_map h.parents (mem_toFinset.mp hotherMem) hmem
        (hotherParent.trans hpar.symm)
    obtain ⟨run, hrun, caller, hcaller, hrunId, hcallerId, -, hnested⟩ :=
      (h.run child hmem).parent _ hpar
    have hsameRun := h.run_unique hrun hflow (by rw [hrunId, howner])
    have hsame := h.attempt_unique hcaller hatt hcallerId
    subst hsameRun hsame
    obtain ⟨found, hfound, hsflow⟩ := nestedDefinition_eq_some hdef hnested
    rw [hnode] at hfound
    cases hfound
    rw [honly, Finset.sum_singleton, hsflow]
    exact le_refl _

/-- The attempts of one Flow Run and what they call. -/
theorem RunRows.run_weight_le
    (hvisits : ∀ key node, definition.node key = some node →
      (history.attemptsAt flow.id key).card ≤ visits definition node)
    (weight : FlowDefinitionRef → Nat) :
    ∑ attempt ∈ history.attempts.toFinset.filter fun row => row.flowRunId = flow.id,
        (1 + history.callWeight weight attempt) ≤ (definition.nodes.map fun node =>
        visits definition node * (1 + (node.subflow.map weight).getD 0)).sum := by
  have hcover : ∀ attempt ∈ history.attempts.toFinset.filter fun row => row.flowRunId = flow.id,
      ∃ node ∈ definition.nodes.toFinset, definition.node attempt.nodeKey = some node := by
    intro attempt hatt
    obtain ⟨hmem, howner⟩ := Finset.mem_filter.mp hatt
    obtain ⟨run, hrun, _, -, found, node, hrunId, -, hfound, hnode, -⟩ :=
      (h.attempt attempt (mem_toFinset.mp hmem)).bound
    have hsame := h.run_unique hrun hflow (by rw [hrunId, howner])
    subst hsame
    rw [hdef] at hfound
    cases hfound
    exact ⟨node, mem_toFinset.mpr (node_mem hnode).1, hnode⟩
  refine (sum_le_sum_cover (fun attempt node => definition.node attempt.nodeKey = some node) _
    hcover).trans ?_
  refine le_trans (Finset.sum_le_sum fun node _ => ?_) (sum_toFinset_le definition.nodes _)
  -- Each attempt of the node weighs at most the node's own weight.
  refine (Finset.sum_le_card_nsmul _ _ (1 + (node.subflow.map weight).getD 0) ?_).trans ?_
  · intro attempt hatt
    obtain ⟨hof, hnode⟩ := Finset.mem_filter.mp hatt
    obtain ⟨hmem, howner⟩ := Finset.mem_filter.mp hof
    exact Nat.add_le_add_left (h.callWeight_le hflow hdef (mem_toFinset.mp hmem) howner hnode
      weight) 1
  · rw [smul_eq_mul]
    refine Nat.mul_le_mul_right _ ?_
    rcases Finset.eq_empty_or_nonempty ((history.attempts.toFinset.filter
      fun row => row.flowRunId = flow.id).filter
        fun attempt => definition.node attempt.nodeKey = some node) with hempty | ⟨visited, hvisd⟩
    · rw [hempty, Finset.card_empty]
      exact Nat.zero_le _
    · have hnode := (Finset.mem_filter.mp hvisd).2
      have hkey := (node_mem hnode).2
      rw [← hkey] at hnode
      refine le_trans (Finset.card_le_card fun attempt hatt => ?_) (hvisits node.key node hnode)
      obtain ⟨hof, hattemptNode⟩ := Finset.mem_filter.mp hatt
      obtain ⟨hmem, howner⟩ := Finset.mem_filter.mp hof
      exact FlowRuntimeHistory.mem_attemptsAt.mpr ⟨mem_toFinset.mp hmem, howner,
        (node_mem hattemptNode).2.symm⟩

end

theorem RunRows.sum_nested_le (weight : FlowDefinitionRef → Nat) :
    ∑ flow ∈ history.flowRuns.toFinset.filter (fun flow => flow.parent ≠ none),
        weight flow.definition ≤
      ∑ attempt ∈ history.attempts.toFinset, history.callWeight weight attempt := by
  refine (sum_le_sum_cover (fun (flow : FlowRun) (attempt : NodeAttempt) =>
    flow.parent = some ⟨attempt.flowRunId, attempt.id⟩) _ ?_).trans (Finset.sum_le_sum ?_)
  · intro flow hflow
    obtain ⟨hmem, hsome⟩ := Finset.mem_filter.mp hflow
    obtain ⟨parent, hpar⟩ := ne_none_iff_exists'.mp hsome
    obtain ⟨run, -, attempt, hatt, hrunId, haid, howner, -⟩ :=
      (h.run flow (mem_toFinset.mp hmem)).parent parent hpar
    refine ⟨attempt, mem_toFinset.mpr hatt, ?_⟩
    rw [hpar, haid, howner, hrunId]
  · intro attempt _
    refine Finset.sum_le_sum_of_subset fun flow hflow => ?_
    obtain ⟨hof, hcalled⟩ := Finset.mem_filter.mp hflow
    exact Finset.mem_filter.mpr ⟨(Finset.mem_filter.mp hof).1, hcalled⟩

/-- The root is the only Flow Run that was not called. -/
theorem RunRows.sum_flowRuns (hpar : root.parent = none) (weight : FlowDefinitionRef → Nat) :
    ∑ flow ∈ history.flowRuns.toFinset, weight flow.definition =
      ∑ flow ∈ history.flowRuns.toFinset.filter (fun flow => flow.parent ≠ none),
        weight flow.definition + weight root.definition := by
  have honly : history.flowRuns.toFinset.filter (fun flow => ¬ flow.parent ≠ none) = {root} := by
    refine Finset.eq_singleton_iff_unique_mem.mpr ⟨?_, ?_⟩
    · exact Finset.mem_filter.mpr ⟨mem_toFinset.mpr h.rooted, by simpa using hpar⟩
    · intro flow hflow
      obtain ⟨hmem, hnone⟩ := Finset.mem_filter.mp hflow
      exact inj_on_of_nodup_map h.parents (mem_toFinset.mp hmem) h.rooted
        ((not_not.mp hnone).trans hpar.symm)
  rw [← Finset.sum_filter_add_sum_filter_not _ (fun flow => flow.parent ≠ none), honly,
    Finset.sum_singleton]

section

variable (hnests : ∀ flow ∈ history.flowRuns, NestsWithin validated.closure fuel flow.definition)
  (hvisits : ∀ flow ∈ history.flowRuns, ∀ definition,
    validated.closure.definition flow.definition = some definition → ∀ key node,
    definition.node key = some node → (history.attemptsAt flow.id key).card ≤ visits definition node)

include hnests hvisits

/-- Each Flow Run pays for its attempts and for what they call. -/
theorem RunRows.sum_attempts_le : ∑ attempt ∈ history.attempts.toFinset,
        (1 + history.callWeight (expansion validated.closure visits fuel) attempt) ≤
      ∑ flow ∈ history.flowRuns.toFinset, expansion validated.closure visits fuel flow.definition := by
  refine (sum_le_sum_cover (fun attempt flow => attempt.flowRunId = flow.id) _ ?_).trans
    (Finset.sum_le_sum ?_)
  · intro attempt hatt
    obtain ⟨flow, hflow, hid⟩ := h.attempt_flow (mem_toFinset.mp hatt)
    exact ⟨flow, mem_toFinset.mpr hflow, hid.symm⟩
  · intro flow hflow
    have hflow := mem_toFinset.mp hflow
    have hwith := hnests flow hflow
    cases fuel with
    | zero => cases hwith
    | succ fuel =>
      obtain ⟨definition, hdef, hchildren⟩ := hwith
      refine (h.run_weight_le hflow hdef (hvisits flow hflow definition hdef) _).trans ?_
      -- One level down the same fuel weighs the same.
      have hweight : expansion validated.closure visits (fuel + 1) flow.definition =
          (definition.nodes.map fun node => visits definition node *
            (1 + (node.subflow.map (expansion validated.closure visits fuel)).getD 0)).sum := by
        rw [expansion, hdef]
      rw [hweight]
      refine le_of_eq (congrArg List.sum (map_congr_left fun node hnode => ?_))
      cases hnested : node.subflow with
      | none => rfl
      | some nested =>
        have hchild := hchildren nested (mem_subflows hnode hnested)
        simp only [map_some, getD_some]
        rw [expansion_succ hchild]

/-- Visits of nodes bound the attempts of the run: the weight of a nested Flow Run is part
    of its caller's, and only the root's is left. -/
theorem RunRows.attempts_length_le (hpar : root.parent = none) :
    history.attempts.length ≤ expansion validated.closure visits fuel root.definition := by
  have hatts := h.sum_attempts_le hnests hvisits
  have hnested := h.sum_nested_le (expansion validated.closure visits fuel)
  have hruns := h.sum_flowRuns hpar (expansion validated.closure visits fuel)
  rw [Finset.sum_add_distrib, Finset.sum_const, smul_eq_mul, Nat.mul_one,
    toFinset_card_of_nodup (List.Nodup.of_map _ h.attempts)] at hatts
  omega

end

end

end Accounting

end OctaCity.Factory.Flow
