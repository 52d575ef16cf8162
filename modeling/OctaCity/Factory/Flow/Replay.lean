/-
  OctaCity.Factory.Flow.Replay

  The validator accepts what the interpreter drives.  Identities, bindings,
  cycles, numbers and routes of a driven history pass every structural check;
  only the aggregate WIP and the measured budgets are left to the driver.
-/
import OctaCity.Factory.Flow.RunRoutes

namespace OctaCity.Factory.Flow

open Lib FlowInterpreter

section Replay

variable {checks : AdmissionChecks} {admitted : AdmittedFlow}
  {validated : ValidatedFlowDefinitionClosure} {root : FlowRun} {history : FlowRuntimeHistory}
  {flow : FlowRun} {definition : FlowDefinition}

/-! ## Rows -/

theorem RunRows.acceptedRun (h : RunRows validated root history) (hflow : flow ∈ history.flowRuns) :
    AcceptedRun root validated history flow := by
  obtain ⟨hdef, hfact, hpar⟩ := h.run flow hflow
  refine ⟨hdef, hfact, ?_⟩
  intro parent hsome
  have hcount := countP_key_eq_one h.parents hflow
  rw [hsome] at hcount
  exact ⟨hcount, hpar parent hsome⟩

theorem Driven.acceptedCycles (h : Driven validated root history) (hclos : SoundClosure validated)
    (hflow : flow ∈ history.flowRuns) : AcceptedCycles validated history flow := by
  have hrows := h.rows
  refine ⟨⟨WorkflowCycle.initial flow, hrows.initial flow hflow, rfl, rfl, ?_, ?_⟩, ?_⟩
  · simp [isInitialCycle, WorkflowCycle.initial, FlowRunId.initialCycleId]
  · intro other hother howner hnone
    obtain ⟨run, hrun, rfl⟩ := (hrows.cycle other hother).initial hnone
    rw [hrows.run_unique hrun hflow howner]
  · intro cycle hcycle howner predecessor hsome
    obtain ⟨previous, hprev, hid, hsame, hnum, -⟩ :=
      (hrows.cycle cycle hcycle).successor predecessor hsome
    refine ⟨⟨previous, hprev, hid, by rw [hsame, howner], hnum⟩, ?_, ?_⟩
    · refine countP_eq_one_of_unique (List.Nodup.of_map _ hrows.cycles) hcycle ?_ ?_
      · simpa using hsome
      · intro other hother hotherOf
        exact hrows.successors other hother cycle hcycle predecessor (by simpa using hotherOf) hsome
    · obtain ⟨definition, hdef⟩ := (hrows.run flow hflow).definition
      obtain ⟨key, hfixed⟩ := h.routes.entries flow hflow definition hdef cycle hcycle howner
      exact ⟨key, hfixed.cycleEntry_eq hrows (hclos.sound hdef) hdef howner⟩

/-- The attempts of a Flow Run were appended in the order of their numbers. -/
theorem RunRows.numbered (h : RunRows validated root history) (id : FlowRunId) :
    isNumberedInSequence history id = true := by
  have hnums := h.numbers id
  have hsort : (history.attempts.filter fun attempt => attempt.flowRunId = id).Pairwise
      fun left right => left.number ≤ right.number := by
    have hrange : ((history.attempts.filter fun attempt => attempt.flowRunId = id).map
        (·.number.value)).Pairwise (· < ·) := by
      rw [hnums]
      exact List.pairwise_lt_range'
    rw [List.pairwise_map] at hrange
    exact hrange.imp fun hlt => le_of_lt (Sequence.lt_iff.mpr hlt)
  unfold isNumberedInSequence runAttempts
  rw [hsort.insertionSort_eq, hnums, decide_eq_true_eq, FlowRuntimeHistory.attemptCount,
    List.countP_eq_length_filter]

variable {attempt : NodeAttempt}

theorem RunRows.acceptedRetry (h : RunRows validated root history) (hflow : flow ∈ history.flowRuns)
    (hdef : validated.closure.definition flow.definition = some definition)
    (hatt : attempt ∈ history.attempts) (howner : attempt.flowRunId = flow.id)
    {previousId : NodeAttemptId} (hretry : attempt.retryOf = some previousId) :
    AcceptedRetry definition history attempt previousId := by
  obtain ⟨hlineage, ⟨receipt, hrcpt, hid, hreason, htime⟩, hbdd⟩ :=
    h.retry attempt hatt previousId hretry
  refine ⟨hlineage, ⟨receipt, (find?_key_eq_some h.stopped).mpr ⟨hrcpt, hid⟩, hreason, htime⟩,
    ?_, ?_⟩
  · refine countP_eq_one_of_unique (List.Nodup.of_map _ h.attempts) hatt ?_ ?_
    · simpa using hretry
    · intro other hother hotherOf
      exact h.retried other hother attempt hatt previousId (by simpa using hotherOf) hretry
  · obtain ⟨run, hrun, found, node, hrunId, hfound, hnode, hwith⟩ := hbdd
    have hsame := h.run_unique hrun hflow (by rw [hrunId, howner])
    subst hsame
    rw [hdef] at hfound
    cases hfound
    exact ⟨node, hnode, hwith⟩

/-! ## Routes -/

/-- A driven successor is one for the validator: both select with the
    traversals through the producing attempt. -/
theorem Follows.declaredSuccessor (hrows : RunRows validated root history)
    {predecessor : NodeAttempt} {completion : NodeAttemptCompletion} {transition : FlowTransition}
    (h : Follows definition history attempt predecessor completion transition) :
    DeclaredSuccessor definition history attempt := by
  refine ⟨predecessor, h.mem, h.flow, h.cycle, h.earlier, completion, ?_, transition, h.declared,
    h.sameCycle, h.routes, ?_⟩
  · exact (completion?_eq_some hrows.completed).mpr ⟨h.completed.mem, h.completed.id⟩
  · rw [h.completed.flow, h.completed.key]
    exact h.selects

theorem Driven.acceptedRoute (h : Driven validated root history) (hclos : SoundClosure validated)
    (hflow : flow ∈ history.flowRuns)
    (hdef : validated.closure.definition flow.definition = some definition)
    (hatt : attempt ∈ history.attempts) (howner : attempt.flowRunId = flow.id) :
    AcceptedRoute validated definition history flow attempt := by
  refine ⟨fun previousId => h.rows.acceptedRetry hflow hdef hatt howner, ?_, ?_⟩
  · intro hfirst hnone
    rcases h.routes.routes flow hflow definition hdef attempt hatt howner hfirst with
      henters | ⟨predecessor, completion, transition, hfol⟩
    · obtain ⟨cycle, hcycle, hid, hcycleOwner, hfixed⟩ := henters.entry
      exact ⟨cycle, hcycle, hid,
        hfixed.cycleEntry_eq h.rows (hclos.sound hdef) hdef hcycleOwner⟩
    · exact absurd hfol.earlier
        (hnone predecessor hfol.mem hfol.flow hfol.cycle)
  · rintro hfirst ⟨other, hother, hoflow, hocyc, hlt⟩
    rcases h.routes.routes flow hflow definition hdef attempt hatt howner hfirst with
      henters | ⟨predecessor, completion, transition, hfol⟩
    · exact absurd hlt (not_lt.mpr (henters.first other hother hoflow hocyc))
    · exact hfol.declaredSuccessor h.rows

theorem RunRows.acceptedStop (h : RunRows validated root history) {receipt : FlowNodeStop}
    (hrcpt : receipt ∈ history.stops) : AcceptedStop history receipt := by
  obtain ⟨attempt, hatt, hid, hobserver, husage, hbytes⟩ := h.stop receipt hrcpt
  refine ⟨attempt, hatt, hid.symm, ?_, hobserver, husage, hbytes⟩
  unfold FlowRuntimeHistory.isCompleted
  rw [List.any_eq_false]
  intro completion hcomp hsame
  rw [decide_eq_true_eq, ← hid] at hsame
  exact h.exclusive completion hcomp receipt hrcpt hsame

theorem Enters.cycle_empty (hrows : RunRows validated root history)
    {cycle : WorkflowCycle} (hcycle : cycle ∈ history.cycles) (howner : cycle.flowRunId = flow.id)
    (hflow : attempt.flowRunId = flow.id) (hid : attempt.workflowCycleId = cycle.id)
    (hnext : history.IsNext attempt)
    (h : Enters definition { history with attempts := history.attempts ++ [attempt] } flow
      attempt) :
    ∀ other ∈ history.attempts, other.workflowCycleId ≠ cycle.id := by
  intro other hother hocyc
  obtain ⟨own, hown, hownId, hownFlow⟩ := hrows.attempt_cycle hother
  have hsame := hrows.cycle_unique hown hcycle (by rw [hownId, hocyc])
  have hoflow : other.flowRunId = attempt.flowRunId := by rw [← hownFlow, hsame, howner, hflow]
  have hle := h.first other (List.mem_append_left _ hother) hoflow (by rw [hocyc, hid])
  exact absurd hle (not_le.mpr (hrows.number_lt_next hnext hother hoflow))

/-! ## Accepted histories -/

/-- Measured usage is within the budgets of every Flow Run and the admission. -/
def WithinBudgets (admitted : AdmittedFlow) (history : FlowRuntimeHistory) : Prop :=
  ∃ usage, history.observedUsageByFlow = .ok usage ∧
    validateFlowBudgets admitted history usage = .ok ()

theorem Accepted.of_driven (hclos : SoundClosure validated)
    (h : Driven validated admitted.rootRun history) (hpar : admitted.rootRun.parent = none)
    (hinit : admitted.initialCycle = WorkflowCycle.initial admitted.rootRun)
    (hwip : history.activeNodeCount ≤ validated.limits.maxWip)
    (hbuds : WithinBudgets admitted history) : Accepted admitted validated history where
  runs := h.rows.runs
  cycles := h.rows.cycles
  attempts := h.rows.attempts
  root := h.rows.rooted
  rooted := by
    have hcount := countP_key_eq_one h.rows.parents h.rows.rooted
    rwa [hpar] at hcount
  run := fun _ hflow => h.rows.acceptedRun hflow
  initial := by
    rw [hinit]
    exact h.rows.initial _ h.rows.rooted
  cycle := fun _ hflow => h.acceptedCycles hclos hflow
  attempt := h.rows.attempt
  numbered := fun attempt _ => h.rows.numbered attempt.flowRunId
  route := fun _ hflow _ hdef _ hatt howner => h.acceptedRoute hclos hflow hdef hatt howner
  completed := h.rows.completed
  completion := h.rows.completion
  stopped := h.rows.stopped
  stop := fun _ hrcpt => h.rows.acceptedStop hrcpt
  wip := hwip
  budgets := hbuds

/-- An attempt that is only appended costs nothing. -/
theorem RunRows.withinBudgets_append (h : RunRows validated root history) :
    WithinBudgets admitted { history with attempts := history.attempts ++ [attempt] } ↔
      WithinBudgets admitted history := by
  have hfind : ∀ receipt ∈ history.stops,
      ({ history with attempts := history.attempts ++ [attempt] } :
        FlowRuntimeHistory).attempt? receipt.nodeAttemptId =
          history.attempt? receipt.nodeAttemptId := by
    intro receipt hrcpt
    obtain ⟨owner, howner, hnew⟩ := h.stop receipt hrcpt
    have hsome : history.attempt? receipt.nodeAttemptId = some owner :=
      (attempt?_eq_some h.attempts).mpr ⟨howner, hnew.id.symm⟩
    unfold FlowRuntimeHistory.attempt? at hsome ⊢
    rw [List.find?_append, hsome]
    rfl
  have husage : ({ history with attempts := history.attempts ++ [attempt] } :
      FlowRuntimeHistory).observedUsageByFlow = history.observedUsageByFlow := by
    unfold FlowRuntimeHistory.observedUsageByFlow
    refine congrArg _ (funext fun usage => foldlM_congr_mem usage ?_)
    intro usage receipt hrcpt
    rw [hfind receipt hrcpt]
  have hoverruns : ({ history with attempts := history.attempts ++ [attempt] } :
      FlowRuntimeHistory).stopOverrunsByFlow = history.stopOverrunsByFlow := by
    unfold FlowRuntimeHistory.stopOverrunsByFlow
    refine foldlM_congr_mem _ ?_
    intro usage receipt hrcpt
    rw [hfind receipt hrcpt]
  unfold WithinBudgets validateFlowBudgets FlowRuntimeHistory.validateBudgetUsage
  rw [husage, hoverruns]

end Replay

/-- Every dispatch the interpreter offers is accepted.  The validator asks for nothing
    more than the budgets of the rows before and recognises the attempt as the entry
    of its cycle or as a declared successor.  Admissions built from a configuration
    start with the initial cycle of their root Flow Run. -/
theorem dispatch_accepted {checks : AdmissionChecks} {admitted : AdmittedFlow}
    {validated : ValidatedFlowDefinitionClosure} (hvalid : admitted.validated checks = .ok validated)
    (hinit : admitted.initialCycle = WorkflowCycle.initial admitted.rootRun)
    {commands : List FlowCommand} {history : FlowRuntimeHistory}
    (hrun : FlowInterpreter.run ⟨validated⟩ everyStep admitted.rootRun commands = some history)
    {flow : FlowRun} (hflow : flow ∈ history.flowRuns) {cycle : WorkflowCycle}
    (hnewest : history.newestCycle? flow.id = some cycle) {definition : FlowDefinition}
    (hdef : validated.closure.definition flow.definition = some definition)
    {ready : OrdSet FactoryKey}
    (hready : FlowInterpreter.readyNodes ⟨validated⟩ flow cycle history = .ok ready)
    {input : NodeAttemptInput} (hkey : input.nodeKey ∈ ready.rows)
    (hidle : hasPending history flow cycle input.nodeKey = false)
    (hnext : isNext history flow.id input = true) {attempt : NodeAttempt}
    (hnew : NodeAttempt.new flow cycle definition input = .ok attempt)
    (hwip : ({ history with attempts := history.attempts ++ [attempt] } :
      FlowRuntimeHistory).activeNodeCount ≤ validated.limits.maxWip) :
    (validateFlowRuntimeHistory checks admitted
        { history with attempts := history.attempts ++ [attempt] } = .ok () ↔
      WithinBudgets admitted history) ∧
    (validateFlowRuntimeHistory checks admitted history = .ok () →
      validateFlowRuntimeHistory checks admitted
        { history with attempts := history.attempts ++ [attempt] } = .ok ()) ∧
    ((∀ other ∈ history.attempts, other.workflowCycleId ≠ cycle.id) ∧
        FlowInterpreter.cycleEntry ⟨validated⟩ flow cycle
          { history with attempts := history.attempts ++ [attempt] } = .ok attempt.nodeKey ∨
      DeclaredSuccessor definition { history with attempts := history.attempts ++ [attempt] }
        attempt) := by
  obtain ⟨hclos, hclosure, -, hbindings⟩ := AdmittedFlow.validated_eq_ok hvalid
  obtain ⟨hroot, hpar⟩ := AdmittedFlow.validateRootBindings_eq_ok hbindings
  have hdriven : Driven validated admitted.rootRun history :=
    Driven.of_run hclos hpar (by rw [hroot, hclosure]) hrun
  have hnew := NodeAttempt.new_eq_ok hnew
  have hisNext := IsNext.of_isNext hnext hnew.id hnew.number hnew.flow
  rw [← hnew.key] at hkey hidle
  have hstep : Step ⟨validated⟩ history (.dispatch flow.id input)
      { history with attempts := history.attempts ++ [attempt] } :=
    .dispatch hflow hnewest hdef hready hkey hidle hnew hisNext
  have hdrivN := hdriven.step hclos hstep
  have hbuds : WithinBudgets admitted
      { history with attempts := history.attempts ++ [attempt] } ↔
        WithinBudgets admitted history := hdriven.rows.withinBudgets_append
  have hacc : validateFlowRuntimeHistory checks admitted
      { history with attempts := history.attempts ++ [attempt] } = .ok () ↔
        WithinBudgets admitted history := by
    rw [validateFlowRuntimeHistory_eq_ok, ← hbuds]
    constructor
    · rintro ⟨_, -, h⟩
      exact h.budgets
    · intro hwith
      exact ⟨validated, hvalid,
        Accepted.of_driven hclos hdrivN hpar hinit hwip hwith⟩
  refine ⟨hacc, ?_, ?_⟩
  · intro hbef
    obtain ⟨_, -, h⟩ := validateFlowRuntimeHistory_eq_ok.mp hbef
    exact hacc.mpr h.budgets
  · obtain ⟨hcycle, howner, -⟩ := newestCycle?_spec hnewest
    have hreach := Reached.of_dispatch hdriven.rows hdriven.order hdriven.routes
      (hclos.sound hdef) hflow hnewest hdef hready hkey hidle hnew hisNext
    rcases hreach with henters | ⟨predecessor, completion, transition, hfol⟩
    · refine Or.inl ⟨?_, ?_⟩
      · exact henters.cycle_empty hdriven.rows hcycle howner hnew.flow hnew.cycle hisNext
      · obtain ⟨own, hown, hid, -, hfixed⟩ := henters.entry
        have hsame := hdriven.rows.cycle_unique hown hcycle (by rw [hid, hnew.cycle])
        rw [hsame] at hfixed
        exact hfixed.cycleEntry_eq hdrivN.rows (hclos.sound hdef) hdef howner
    · exact Or.inr (hfol.declaredSuccessor hdrivN.rows)

namespace Diamond

/-- The right branch starts after the join has already run once. -/
def rightAttempt : NodeAttempt := attemptRow (input "right" .join 4)

theorem right_accepted : validateFlowRuntimeHistory checks admitted
    { history with attempts := history.attempts ++ [rightAttempt] } = .ok () := by
  have hrun : FlowInterpreter.run ⟨validated⟩ everyStep admitted.rootRun leftFirst =
      some history := by decide
  have hflow : root ∈ history.flowRuns := by decide
  have hnewest : history.newestCycle? root.id = some (WorkflowCycle.initial root) := by
    decide
  have hdef : validated.closure.definition root.definition = some definition := by decide
  obtain ⟨ready, hready, hkey⟩ : ∃ ready, FlowInterpreter.readyNodes ⟨validated⟩ root
      (WorkflowCycle.initial root) history = .ok ready ∧ (input "right" .join 4).nodeKey ∈
        ready.rows := readyNodes_contains (by decide)
  have hnew : NodeAttempt.new root (WorkflowCycle.initial root) definition
      (input "right" .join 4) = .ok rightAttempt := by decide +kernel
  have hbef : validateFlowRuntimeHistory checks admitted history = .ok () := by decide +kernel
  exact (dispatch_accepted admitted_validated rfl hrun hflow hnewest hdef hready hkey
    (by decide) (by decide) hnew (by decide)).2.1 hbef

end Diamond

end OctaCity.Factory.Flow
