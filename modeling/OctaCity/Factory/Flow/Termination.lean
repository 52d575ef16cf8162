/-
  OctaCity.Factory.Flow.Termination

  Driven runs are finite.  Edges that use up no repeat are acyclic, so the
  dispatches of a node are bounded by those of the nodes before it and by the
  repeats; together with the nesting this bounds the attempts of a run, and
  every command appends a row that belongs to an attempt.
-/
import OctaCity.Factory.Flow.Expansion

namespace OctaCity.Factory.Flow

open Factory.Graph Finset FlowInterpreter Lib List Option

/-! ## Edges that use up no repeat -/

/-- A transition leads from one node on to the other. -/
def LeadsOn (definition : FlowDefinition) (left right : FactoryKey) : Prop :=
  ∃ transition ∈ definition.transitions, transition.predecessor = left ∧
    transition.leadsOn right = true

section Acyclic

variable {definition : FlowDefinition}

variable {left right : FactoryKey}

theorem LeadsOn.structural (h : LeadsOn definition left right) :
    Edge definition.structuralEdges left right := by
  obtain ⟨transition, hmem, rfl, hleads⟩ := h
  refine OrdSet.mem_ofList.mpr (mem_flatMap.mpr ⟨transition, hmem, mem_map_of_mem ?_⟩)
  unfold FlowTransition.leadsOn at hleads
  unfold FlowTransition.nodeTargets
  rw [decide_eq_true_eq] at hleads
  rcases hleads with ⟨-, htgt⟩ | hgate
  · simp [htgt, FlowTransitionTarget.nodeKey?]
  · simp [hgate]

/-- The node receives the exhausted repeats of some edge. -/
def IsGate (definition : FlowDefinition) (key : FactoryKey) : Prop :=
  ∃ transition ∈ definition.transitions, transition.exhaustedNode = some key

theorem LeadsOn.cases (h : LeadsOn definition left right) :
    Edge definition.unboundedEdges left right ∨ IsGate definition right := by
  obtain ⟨transition, hmem, rfl, hleads⟩ := h
  unfold FlowTransition.leadsOn at hleads
  rw [decide_eq_true_eq] at hleads
  rcases hleads with ⟨hzero, htgt⟩ | hgate
  · refine Or.inl (OrdSet.mem_ofList.mpr (mem_filterMap.mpr ⟨transition, hmem, ?_⟩))
    simp only [hzero, htgt]
  · exact Or.inr ⟨transition, hmem, hgate⟩

/-- A path either is unbounded throughout or passes through a gate. -/
theorem leadsOn_path (h : Relation.TransGen (LeadsOn definition) left right) :
    Relation.TransGen (Edge definition.unboundedEdges) left right ∨
      ∃ gate, IsGate definition gate ∧ Relation.TransGen (LeadsOn definition) left gate ∧
        Relation.ReflTransGen (LeadsOn definition) gate right := by
  induction h with
  | single hstep =>
    rcases hstep.cases with hedge | hgate
    · exact Or.inl (.single hedge)
    · exact Or.inr ⟨_, hgate, .single hstep, .refl⟩
  | tail hpath hstep ih =>
    rcases ih with hbef | ⟨gate, hgate, hto, hfrom⟩
    · rcases hstep.cases with hedge | hgate
      · exact Or.inl (hbef.tail hedge)
      · exact Or.inr ⟨_, hgate, hpath.tail hstep, .refl⟩
    · exact Or.inr ⟨gate, hgate, hto, hfrom.tail hstep⟩

/-- Admission rejects every loop that uses up no repeat. -/
theorem SoundDefinition.leadsOn_acyclic (hsound : SoundDefinition definition) (key : FactoryKey) :
    ¬ Relation.TransGen (LeadsOn definition) key key := by
  intro hloop
  rcases leadsOn_path hloop with hunbounded | ⟨gate, ⟨transition, hmem, hgate⟩, hto, hfrom⟩
  · exact hsound.unbounded key hunbounded
  · refine (hsound.gate transition hmem gate hgate).2.2 ?_
    have hround : Relation.TransGen (LeadsOn definition) gate gate :=
      Relation.TransGen.trans_right hfrom hto
    exact Relation.TransGen.mono (fun _ _ hstep => hstep.structural) _ _ hround

end Acyclic

/-! ## Dispatches of a node -/

def FlowDefinition.retryTotal (definition : FlowDefinition) : Nat :=
  (definition.nodes.map (·.maxExecutionRetries)).sum

/-- Dispatches of a node in one Flow Run, by how many transitions lead on to it. -/
def FlowDefinition.dispatchCeiling (definition : FlowDefinition) : Nat → Nat
  | 0 => 1 + 2 * definition.repeatTotal
  | level + 1 => 1 + 2 * definition.repeatTotal +
      definition.transitions.length * ((1 + definition.retryTotal) * definition.dispatchCeiling level)

/-- Attempts of a node in one Flow Run. -/
def FlowDefinition.visitCeiling (definition : FlowDefinition) (node : FlowNodeDefinition) : Nat :=
  (1 + node.maxExecutionRetries) * definition.dispatchCeiling definition.transitions.length

/-- Commands of a run. -/
def ValidatedFlowDefinitionClosure.stepCeiling (validated : ValidatedFlowDefinitionClosure) : Nat :=
  5 * expansion validated.closure FlowDefinition.visitCeiling
    validated.closure.definitions.length validated.closure.root

theorem FlowDefinition.dispatchCeiling_mono (definition : FlowDefinition) :
    Monotone definition.dispatchCeiling := by
  refine monotone_nat_of_le_succ fun level => ?_
  induction level with
  | zero =>
    rw [dispatchCeiling, dispatchCeiling]
    exact Nat.le_add_right _ _
  | succ level ih =>
    rw [dispatchCeiling, dispatchCeiling]
    exact Nat.add_le_add_left (Nat.mul_le_mul_left _ (Nat.mul_le_mul_left _ ih)) _

section Dispatches

variable {validated : ValidatedFlowDefinitionClosure} {root : FlowRun}
  {history : FlowRuntimeHistory} {flow : FlowRun} {definition : FlowDefinition}

open Classical in
/-- How many transitions start before the node. -/
noncomputable def FlowDefinition.rank (definition : FlowDefinition) (key : FactoryKey) : Nat :=
  definition.transitions.countP fun transition =>
    Relation.TransGen (LeadsOn definition) transition.predecessor key

variable {key : FactoryKey}

theorem SoundDefinition.rank_lt (hsound : SoundDefinition definition) {transition : FlowTransition}
    (hmem : transition ∈ definition.transitions) (hleads : transition.leadsOn key = true) :
    definition.rank transition.predecessor < definition.rank key := by
  classical
  have hstep : LeadsOn definition transition.predecessor key := ⟨transition, hmem, rfl, hleads⟩
  unfold FlowDefinition.rank
  refine countP_lt_of_imp ?_ ⟨transition, hmem, ?_, ?_⟩
  · intro other _ hbef
    rw [decide_eq_true_eq] at hbef ⊢
    exact hbef.tail hstep
  · rw [decide_eq_false_iff_not]
    exact hsound.leadsOn_acyclic _
  · rw [decide_eq_true_eq]
    exact .single hstep

/-- Attempts of a node, declared or not. -/
theorem RunRows.attemptsAt_card_le_retryTotal (h : RunRows validated root history)
    (hflow : flow ∈ history.flowRuns)
    (hdef : validated.closure.definition flow.definition = some definition) (key : FactoryKey) :
    (history.attemptsAt flow.id key).card ≤
      (1 + definition.retryTotal) * (history.dispatchesAt flow.id key).card := by
  cases hnode : definition.node key with
  | some node =>
    refine (h.attemptsAt_card_le hflow hdef hnode).trans (Nat.mul_le_mul_right _ ?_)
    refine Nat.add_le_add_left (single_le_sum (fun _ _ => Nat.zero_le _) _ ?_) 1
    exact mem_map_of_mem (FlowDefinition.node_mem hnode).1
  | none =>
    have hempty : history.attemptsAt flow.id key = ∅ := by
      refine eq_empty_of_forall_notMem fun attempt hatt => ?_
      obtain ⟨hmem, howner, hkey⟩ := FlowRuntimeHistory.mem_attemptsAt.mp hatt
      obtain ⟨run, hrun, _, -, found, node, hrunId, -, hfound, hnode', -⟩ :=
        (h.attempt attempt hmem).bound
      have hsame := h.run_unique hrun hflow (by rw [hrunId, howner])
      subst hsame
      rw [hdef] at hfound
      cases hfound
      rw [hkey, hnode] at hnode'
      cases hnode'
    rw [hempty, card_empty]
    exact Nat.zero_le _

section

variable (h : Driven validated root history) (hsound : SoundDefinition definition)
  (hflow : flow ∈ history.flowRuns)
  (hdef : validated.closure.definition flow.definition = some definition)

include h hsound hflow hdef

/-- Dispatches of a node are bounded, by induction on what leads on to it. -/
theorem Driven.dispatchesAt_card_le_ceiling (key : FactoryKey) :
    (history.dispatchesAt flow.id key).card ≤ definition.dispatchCeiling (definition.rank key) := by
  induction hrank : definition.rank key using Nat.strong_induction_on generalizing key with
  | _ level ih =>
    refine (h.dispatchesAt_card_le hflow hdef key).trans ?_
    cases level with
    | zero =>
      have hempty : definition.transitions.toFinset.filter (·.leadsOn key = true) = ∅ := by
        refine filter_eq_empty_iff.mpr fun transition hmem hleads => ?_
        have hlt := hsound.rank_lt (mem_toFinset.mp hmem) hleads
        omega
      rw [hempty, sum_empty, FlowDefinition.dispatchCeiling]
      exact le_refl _
    | succ level =>
      rw [FlowDefinition.dispatchCeiling]
      refine Nat.add_le_add_left ?_ _
      refine (sum_le_card_nsmul _ _
        ((1 + definition.retryTotal) * definition.dispatchCeiling level) ?_).trans ?_
      · intro transition htrans
        obtain ⟨hmem, hleads⟩ := Finset.mem_filter.mp htrans
        have hlt := hsound.rank_lt (mem_toFinset.mp hmem) hleads
        have hbef := ih _ (by omega) transition.predecessor rfl
        refine (h.rows.attemptsAt_card_le_retryTotal hflow hdef _).trans (Nat.mul_le_mul_left _ ?_)
        exact hbef.trans (definition.dispatchCeiling_mono (by omega))
      · rw [smul_eq_mul]
        refine Nat.mul_le_mul_right _ ?_
        exact (card_filter_le _ _).trans (toFinset_card_le _)

/-- The visits of a declared node stay below their ceiling. -/
theorem Driven.attemptsAt_card_le_ceiling {node : FlowNodeDefinition}
    (hnode : definition.node key = some node) :
    (history.attemptsAt flow.id key).card ≤ definition.visitCeiling node := by
  refine (h.rows.attemptsAt_card_le hflow hdef hnode).trans (Nat.mul_le_mul_left _ ?_)
  refine (h.dispatchesAt_card_le_ceiling hsound hflow hdef key).trans ?_
  exact definition.dispatchCeiling_mono countP_le_length

end

end Dispatches

/-! ## Rows and commands -/

/-- Rows other than Flow Runs, which arrive with their initial cycle. -/
def FlowRuntimeHistory.size (history : FlowRuntimeHistory) : Nat :=
  history.attempts.length + history.completions.length + history.stops.length +
    history.cycles.length

section Rows

variable {interpreter : FlowInterpreter} {command : FlowCommand} {validated : ValidatedFlowDefinitionClosure}
  {root : FlowRun} {history next : FlowRuntimeHistory}

theorem Step.size (h : Step interpreter history command next) : next.size = history.size + 1 := by
  unfold FlowRuntimeHistory.size
  cases h <;> simp only [length_append, length_cons, length_nil] <;> omega

variable {allowed : FlowRuntimeHistory → FlowCommand → FlowRuntimeHistory → Bool}
  {commands : List FlowCommand}

/-- Every command appends one row. -/
theorem drive_size {start : FlowRuntimeHistory}
    (h : commands.foldlM (interpreter.drive allowed) start = some history) :
    history.size = start.size + commands.length := by
  induction commands generalizing start with
  | nil =>
    cases h
    rfl
  | cons command rest ih =>
    rw [foldlM_cons] at h
    obtain ⟨mid, hmid, h⟩ := bind_eq_some_iff.mp h
    unfold drive at hmid
    obtain ⟨reached, hreach, hmid⟩ := bind_eq_some_iff.mp hmid
    split at hmid
    · cases hmid
      have hstep := (step_cases hreach).size
      have hrest := ih h
      rw [length_cons]
      omega
    · cases hmid

section

variable (h : RunRows validated root history)

include h

theorem RunRows.completions_length_le : history.completions.length ≤ history.attempts.length := by
  have hsub : history.completions.map (·.nodeAttemptId) ⊆ history.attempts.map NodeAttempt.id := by
    intro id hid
    obtain ⟨completion, hcomp, rfl⟩ := mem_map.mp hid
    obtain ⟨attempt, hatt, haid, -⟩ := h.completion_attempt hcomp
    exact mem_map.mpr ⟨attempt, hatt, haid⟩
  simpa using (subperm_of_subset h.completed hsub).length_le

theorem RunRows.stops_length_le : history.stops.length ≤ history.attempts.length := by
  have hsub : history.stops.map (·.nodeAttemptId) ⊆ history.attempts.map NodeAttempt.id := by
    intro id hid
    obtain ⟨receipt, hrcpt, rfl⟩ := mem_map.mp hid
    obtain ⟨attempt, hatt, hnew⟩ := h.stop receipt hrcpt
    exact mem_map.mpr ⟨attempt, hatt, hnew.id.symm⟩
  simpa using (subperm_of_subset h.stopped hsub).length_le

/-- Nested Flow Runs were called by different attempts. -/
theorem RunRows.flowRuns_length_le : history.flowRuns.length ≤ 1 + history.attempts.length := by
  have hcard : history.flowRuns.toFinset.card ≤ (insert none
      ((history.attempts.map fun attempt =>
        some (FlowRunParent.mk attempt.flowRunId attempt.id)).toFinset)).card := by
    refine card_le_card_of_injOn FlowRun.parent ?_ ?_
    · intro flow hflow
      have hflow := mem_toFinset.mp hflow
      cases hsome : flow.parent with
      | none => exact mem_insert_self _ _
      | some parent =>
        obtain ⟨run, -, attempt, hatt, hrunId, haid, howner, -⟩ :=
          (h.run flow hflow).parent parent hsome
        refine mem_insert_of_mem (mem_toFinset.mpr (mem_map.mpr
          ⟨attempt, hatt, ?_⟩))
        rw [haid, howner, hrunId]
    · intro left hleft right hright hsame
      exact inj_on_of_nodup_map h.parents (mem_toFinset.mp hleft)
        (mem_toFinset.mp hright) hsame
  rw [toFinset_card_of_nodup (List.Nodup.of_map _ h.runs)] at hcard
  refine hcard.trans ((card_insert_le _ _).trans ?_)
  have hle := toFinset_card_le (history.attempts.map fun attempt =>
    some (FlowRunParent.mk attempt.flowRunId attempt.id))
  rw [length_map] at hle
  omega

/-- Cycles are initial ones of a Flow Run or have their own source. -/
theorem RunRows.cycles_length_le :
    history.cycles.length ≤ history.flowRuns.length + history.attempts.length := by
  have hcard : history.cycles.toFinset.card ≤
      ((history.flowRuns.map fun flow => (WorkflowCycle.initial flow)).toFinset).card +
        ((history.attempts.map fun attempt => attempt.workflowCycleId).toFinset).card := by
    have hsplit := card_filter_add_card_filter_not (s := history.cycles.toFinset)
      (fun cycle => cycle.predecessor = none)
    rw [← hsplit]
    refine Nat.add_le_add (card_le_card fun cycle hcycle => ?_)
      (card_le_card_of_forall_subsingleton
        (fun cycle source => cycle.predecessor = some source) ?_ ?_)
    · obtain ⟨hmem, hnone⟩ := Finset.mem_filter.mp hcycle
      obtain ⟨flow, hflow, rfl⟩ := (h.cycle cycle (mem_toFinset.mp hmem)).initial hnone
      exact mem_toFinset.mpr (mem_map_of_mem hflow)
    · intro cycle hcycle
      obtain ⟨hmem, hsome⟩ := Finset.mem_filter.mp hcycle
      obtain ⟨predecessor, hpred⟩ := ne_none_iff_exists'.mp hsome
      obtain ⟨previous, -, hid, -, -, source, hsrc, -, hscyc⟩ :=
        (h.cycle cycle (mem_toFinset.mp hmem)).successor predecessor hpred
      exact ⟨predecessor, mem_toFinset.mpr (mem_map.mpr
        ⟨source, hsrc, by rw [hscyc, hid]⟩), hpred⟩
    · rintro predecessor - left ⟨hleft, hleftOf⟩ right ⟨hright, hrightOf⟩
      have hin : ∀ {cycle}, cycle ∈ history.cycles.toFinset.filter
          (fun cycle => ¬ cycle.predecessor = none) → cycle ∈ history.cycles := fun hcycle =>
        mem_toFinset.mp (Finset.mem_filter.mp hcycle).1
      exact h.successors left (hin hleft) right (hin hright) predecessor hleftOf hrightOf
  rw [toFinset_card_of_nodup (List.Nodup.of_map _ h.cycles)] at hcard
  refine hcard.trans (Nat.add_le_add ?_ ?_)
  · exact (toFinset_card_le _).trans (le_of_eq (length_map _))
  · exact (toFinset_card_le _).trans (le_of_eq (length_map _))

/-- Every row but one belongs to an attempt, at most five to each. -/
theorem RunRows.size_le : history.size ≤ 1 + 5 * history.attempts.length := by
  have hcomps := h.completions_length_le
  have hstops := h.stops_length_le
  have hruns := h.flowRuns_length_le
  have hcycs := h.cycles_length_le
  unfold FlowRuntimeHistory.size
  omega

end

theorem attempts_length_le_expansion
    (hclos : SoundClosure validated) {run : FactoryRunId}
    (hrun : FlowInterpreter.run ⟨validated⟩ allowed (FlowRun.root run validated.closure.root)
      commands = some history) :
    history.attempts.length ≤ expansion validated.closure FlowDefinition.visitCeiling
      validated.closure.definitions.length validated.closure.root := by
  have hdriven : Driven validated (FlowRun.root run validated.closure.root) history :=
    Driven.of_run hclos rfl rfl hrun
  have hnests : ∀ flow ∈ history.flowRuns, NestsWithin validated.closure
      validated.closure.definitions.length flow.definition :=
    nestsWithin_of_run (NestsWithin.of_measured hclos.measured) hrun
  refine hdriven.rows.attempts_length_le hnests ?_ rfl
  intro flow hflow definition hdef key node hnode
  exact hdriven.attemptsAt_card_le_ceiling (hclos.sound hdef) hflow hdef hnode

end Rows

/-- Every admitted Flow terminates: a run takes at most as many commands as the ceiling
    computed from the closure's repeats, retries, routes and nesting. -/
theorem run_finite {checks : DefinitionChecks} {closure : PinnedFlowDefinitionClosure}
    {limits : FlowAdmissionLimits} {validated : ValidatedFlowDefinitionClosure}
    (hvalid : ValidatedFlowDefinitionClosure.new checks closure limits = .ok validated)
    (run : FactoryRunId) :
    (∀ commands history, FlowInterpreter.run ⟨validated⟩ everyStep (FlowRun.root run closure.root)
        commands = some history → commands.length ≤ validated.stepCeiling) ∧
    ∀ trace : Nat → FlowCommand, ∃ length, FlowInterpreter.run ⟨validated⟩ everyStep
      (FlowRun.root run closure.root) ((List.range length).map trace) = none := by
  obtain ⟨hclos, rfl, -⟩ := SoundClosure.of_new hvalid
  have hbdd : ∀ commands history, FlowInterpreter.run ⟨validated⟩ everyStep
      (FlowRun.root run validated.closure.root) commands = some history →
        commands.length ≤ validated.stepCeiling := by
    intro commands history hrun
    have hatts := attempts_length_le_expansion hclos hrun
    have hrows := (RunRows.of_root hrun).1.size_le
    have hsize := drive_size hrun
    have hstart : (FlowRuntimeHistory.start
        (FlowRun.root run validated.closure.root)).size = 1 := rfl
    unfold ValidatedFlowDefinitionClosure.stepCeiling
    omega
  refine ⟨hbdd, fun trace => ⟨validated.stepCeiling + 1, ?_⟩⟩
  by_contra hreach
  obtain ⟨history, hrun⟩ := ne_none_iff_exists'.mp hreach
  have hle := hbdd _ history hrun
  rw [length_map, length_range] at hle
  omega

/-- The loop restarts once: thirty commands suffice for any run of it. -/
theorem Loop.run_within_ceiling : Loop.validated.stepCeiling = 30 ∧ ∃ later,
      FlowInterpreter.run ⟨Loop.validated⟩ everyStep Diamond.root
        (Loop.firstCycle ++ Loop.secondCycle) = some later ∧
      (Loop.firstCycle ++ Loop.secondCycle).length ≤ Loop.validated.stepCeiling := by
  have hlater : (FlowInterpreter.run ⟨Loop.validated⟩ everyStep Diamond.root
      (Loop.firstCycle ++ Loop.secondCycle)).isSome = true := by decide +kernel
  obtain ⟨later, hlater⟩ := isSome_iff_exists.mp hlater
  exact ⟨by decide, later, hlater, (run_finite Loop.closure_validated _).1 _ later hlater⟩

end OctaCity.Factory.Flow
