/-
  OctaCity.Factory.Flow.Steps

  What one driven step can do.  `Step` lists the six kinds of step with the
  facts their guards establish; every invariant of a run is derived from it,
  and `run_induction` is the one induction over commands.
-/
import OctaCity.Factory.Flow.Position

namespace OctaCity.Factory.Flow

open FlowInterpreter Lib List

/-! ## Rows built by the constructors -/

/-- What `NodeAttempt.new` establishes. -/
structure NodeAttempt.IsNew (flow : FlowRun) (cycle : WorkflowCycle) (definition : FlowDefinition)
    (input : NodeAttemptInput) (attempt : NodeAttempt) : Prop where
  owner : cycle.flowRunId = flow.id
  id : attempt.id = input.id
  number : attempt.number = input.number
  key : attempt.nodeKey = input.nodeKey
  started : attempt.startedAt = input.startedAt
  factory : attempt.factoryRunId = flow.factoryRunId
  flow : attempt.flowRunId = flow.id
  cycle : attempt.workflowCycleId = cycle.id
  node : ∃ node, definition.node attempt.nodeKey = some node ∧ attempt.nodeKind = node.kind ∧
    attempt.budget = node.budget
  execution : attempt.execution.isCompatible attempt.nodeKind = true
  window : attempt.validateExecutionWindow = .ok ()
  retryOf : attempt.retryOf = none

variable {attempt : NodeAttempt}

variable {flow : FlowRun} {definition : FlowDefinition} {input : NodeAttemptInput}

theorem NodeAttempt.new_eq_ok {cycle : WorkflowCycle}
    (h : NodeAttempt.new flow cycle definition input = .ok attempt) :
    NodeAttempt.IsNew flow cycle definition input attempt := by
  unfold NodeAttempt.new at h
  obtain ⟨hguard, h⟩ := guard_eq_ok.mp h
  obtain ⟨hwin, h⟩ := check_eq_ok.mp h
  cases h
  simp only [not_or, not_not] at hguard
  obtain ⟨-, howner, hdecls, hexec⟩ := hguard
  refine ⟨howner, rfl, rfl, rfl, rfl, rfl, rfl, rfl, ?_, hexec, hwin, rfl⟩
  unfold FlowDefinition.declaresNode at hdecls
  split at hdecls
  · rename_i node hnode
    rw [decide_eq_true_eq] at hdecls
    exact ⟨node, hnode, hdecls.1.symm, hdecls.2⟩
  · cases hdecls

/-- What `NodeAttemptCompletion.new` establishes. -/
structure NodeAttemptCompletion.IsNew (attempt : NodeAttempt) (definition : FlowDefinition)
    (completion : NodeAttemptCompletion) : Prop where
  id : completion.nodeAttemptId = attempt.id
  flow : completion.flowRunId = attempt.flowRunId
  cycle : completion.workflowCycleId = attempt.workflowCycleId
  node : completion.nodeKey = attempt.nodeKey
  declares : definition.declaresOutcome completion = true
  owner : attempt.acceptsCompletionOwner completion.ownership = true
  fence : completion.ownership.claim.verifyFence completion.ownership.claim.fence
    completion.observedAt = .ok ()
  usage : completion.usage.validate attempt.budget = .ok ()

theorem NodeAttemptCompletion.new_eq_ok
    {input : NodeAttemptCompletionInput} {completion : NodeAttemptCompletion}
    (h : NodeAttemptCompletion.new attempt definition input = .ok completion) :
    NodeAttemptCompletion.IsNew attempt definition completion := by
  unfold NodeAttemptCompletion.new at h
  obtain ⟨node, hnode, h⟩ := bind_eq_ok.mp h
  rw [okOr_eq_ok] at hnode
  obtain ⟨hguard, h⟩ := guard_eq_ok.mp h
  obtain ⟨hfence, h⟩ := check_eq_ok.mp h
  obtain ⟨husage, h⟩ := check_eq_ok.mp h
  cases h
  simp only [not_or, not_not] at hguard
  refine ⟨rfl, rfl, rfl, rfl, ?_, hguard.2.2, hfence, husage⟩
  unfold FlowDefinition.declaresOutcome
  rw [hnode]
  exact hguard.2.1

/-- What `FlowNodeStop.new` establishes. -/
structure FlowNodeStop.IsNew (attempt : NodeAttempt) (receipt : FlowNodeStop) : Prop where
  id : receipt.nodeAttemptId = attempt.id
  observer : attempt.verifyObserver receipt.ownership receipt.observedAt = .ok ()
  usage : receipt.usage.attempts = 0
  bytes : receipt.usage.outputBytes ≤ attempt.budget.maxOutputBytes

theorem FlowNodeStop.new_eq_ok {ownership : FactoryClaimOwnership} {reason : FlowNodeStopReason}
    {observedAt : Timestamp} {usage : BudgetUsage} {receipt : FlowNodeStop}
    (h : FlowNodeStop.new attempt ownership reason observedAt usage = .ok receipt) :
    FlowNodeStop.IsNew attempt receipt := by
  unfold FlowNodeStop.new at h
  obtain ⟨hobserver, h⟩ := check_eq_ok.mp h
  obtain ⟨hguard, h⟩ := guard_eq_ok.mp h
  obtain ⟨hbytes, h⟩ := guard_eq_ok.mp h
  cases h
  simp only [not_or, not_not] at hguard
  exact ⟨rfl, hobserver, hguard.2.2, not_lt.mp hbytes⟩

/-- A retry is the new attempt bound to its predecessor. -/
theorem NodeAttempt.withRetryOf_eq_ok {previous retried : NodeAttempt}
    (h : attempt.withRetryOf previous = .ok retried) :
    retried = { attempt with retryOf := some previous.id } ∧
      attempt.flowRunId = previous.flowRunId ∧
      attempt.workflowCycleId = previous.workflowCycleId ∧
      attempt.nodeKey = previous.nodeKey ∧ previous.number < attempt.number ∧
      retried.withRetryOf previous = .ok retried := by
  unfold NodeAttempt.withRetryOf at h ⊢
  obtain ⟨hguard, h⟩ := guard_eq_ok.mp h
  cases h
  have hparts := hguard
  simp only [not_or, not_not, not_le] at hparts
  obtain ⟨-, hflow, hcycle, hkey, -, -, -, hnum, -⟩ := hparts
  exact ⟨rfl, hflow, hcycle, hkey, hnum, guard_eq_ok.mpr ⟨hguard, rfl⟩⟩

/-- What `WorkflowCycle.restart` establishes. -/
theorem WorkflowCycle.restart_eq_ok {id : WorkflowCycleId} {previous next : WorkflowCycle}
    {source : NodeAttempt} (h : WorkflowCycle.restart id previous source = .ok next) :
    source.flowRunId = previous.flowRunId ∧ source.workflowCycleId = previous.id ∧
      next.id = id ∧ next.flowRunId = previous.flowRunId ∧
      previous.number.next? = some next.number ∧ next.predecessor = some previous.id ∧
      next.sourceAttemptId = some source.id := by
  unfold WorkflowCycle.restart at h
  obtain ⟨hguard, h⟩ := guard_eq_ok.mp h
  obtain ⟨number, hnum, h⟩ := bind_eq_ok.mp h
  cases h
  simp only [not_or, not_not] at hguard
  rw [okOr_eq_ok] at hnum
  exact ⟨hguard.1, hguard.2, rfl, rfl, hnum, rfl, rfl⟩

/-! ## One step -/

/-- Identity and number of a new attempt are the next ones of its Flow Run. -/
structure FlowRuntimeHistory.IsNext (history : FlowRuntimeHistory) (attempt : NodeAttempt) :
    Prop where
  fresh : ∀ other ∈ history.attempts, other.id ≠ attempt.id
  number : attempt.number.value = history.attemptCount attempt.flowRunId + 1

/-- The six kinds of step, each with what its guards establish. -/
inductive Step (interpreter : FlowInterpreter) (history : FlowRuntimeHistory) :
    FlowCommand → FlowRuntimeHistory → Prop
  | dispatch {flow : FlowRun} {cycle : WorkflowCycle} {definition : FlowDefinition}
      {ready : OrdSet FactoryKey} {input : NodeAttemptInput} {attempt : NodeAttempt}
      (hflow : flow ∈ history.flowRuns) (hcycle : history.newestCycle? flow.id = some cycle)
      (hdef : interpreter.validated.closure.definition flow.definition = some definition)
      (hready : interpreter.readyNodes flow cycle history = .ok ready)
      (hkey : attempt.nodeKey ∈ ready.rows)
      (hidle : hasPending history flow cycle attempt.nodeKey = false)
      (hnew : NodeAttempt.IsNew flow cycle definition input attempt)
      (hnext : history.IsNext attempt) :
      Step interpreter history (.dispatch flow.id input)
        { history with attempts := history.attempts ++ [attempt] }
  | complete {attempt : NodeAttempt} {flow : FlowRun} {definition : FlowDefinition}
      {completion : NodeAttemptCompletion} {input : NodeAttemptCompletionInput}
      (hatt : attempt ∈ history.attempts)
      (hflow : flow ∈ history.flowRuns) (howner : flow.id = attempt.flowRunId)
      (hdef : interpreter.validated.closure.definition flow.definition = some definition)
      (hopen : isUnfinished history attempt = true)
      (hchild : attempt.nodeKind = .subflowCall →
        interpreter.childTerminal history attempt = some completion.outcome)
      (hnew : NodeAttemptCompletion.IsNew attempt definition completion) :
      Step interpreter history (.complete attempt.id input)
        { history with completions := history.completions ++ [completion] }
  | stop {attempt : NodeAttempt} {receipt : FlowNodeStop} {ownership : FactoryClaimOwnership}
      {reason : FlowNodeStopReason} {observedAt : Timestamp} {usage : BudgetUsage}
      (hatt : attempt ∈ history.attempts)
      (hopen : isUnfinished history attempt = true)
      (hnew : FlowNodeStop.IsNew attempt receipt) :
      Step interpreter history (.stop attempt.id ownership reason observedAt usage)
        { history with stops := history.stops ++ [receipt] }
  | retry {previous attempt retried : NodeAttempt} {flow : FlowRun} {cycle : WorkflowCycle}
      {definition : FlowDefinition} {node : FlowNodeDefinition} {receipt : FlowNodeStop}
      {input : NodeAttemptInput} (hprev : previous ∈ history.attempts)
      (hflow : flow ∈ history.flowRuns) (howner : flow.id = previous.flowRunId)
      (hcycle : cycle ∈ history.cycles) (hcycleId : cycle.id = previous.workflowCycleId)
      (hdef : interpreter.validated.closure.definition flow.definition = some definition)
      (hnode : definition.node previous.nodeKey = some node)
      (hrcpt : history.stops.find? (·.nodeAttemptId = previous.id) = some receipt)
      (hreason : receipt.reason = .executionFailed)
      (htime : receipt.observedAt ≤ retried.startedAt)
      (hnew : NodeAttempt.IsNew flow cycle definition input attempt)
      (hretr : attempt.withRetryOf previous = .ok retried)
      (honce : ∀ row ∈ history.attempts, row.retryOf ≠ some previous.id)
      (hnext : history.IsNext retried)
      (hwith : history.retriesWithin node.maxExecutionRetries retried = true) :
      Step interpreter history (.retry previous.id input)
        { history with attempts := history.attempts ++ [retried] }
  | call {attempt : NodeAttempt} {flow : FlowRun} {nested : FlowDefinitionRef}
      {child : FlowRunId} (hatt : attempt ∈ history.attempts)
      (hflow : flow ∈ history.flowRuns) (howner : flow.id = attempt.flowRunId)
      (hnested : nestedDefinition interpreter.validated flow attempt = some nested)
      (honce : ∀ row ∈ history.flowRuns, row.parent ≠ some ⟨flow.id, attempt.id⟩)
      (hfresh : ∀ row ∈ history.flowRuns, row.id ≠ child)
      (hfreshCycle : ∀ row ∈ history.cycles, row.id ≠ FlowRunId.initialCycleId child) :
      Step interpreter history (.call attempt.id child)
        { history with
          flowRuns := history.flowRuns ++
            [FlowRun.nested child flow.factoryRunId nested ⟨flow.id, attempt.id⟩]
          cycles := history.cycles ++ [WorkflowCycle.initial
            (FlowRun.nested child flow.factoryRunId nested ⟨flow.id, attempt.id⟩)] }
  | restart {flow : FlowRun} {cycle next : WorkflowCycle} {node : FactoryKey}
      {source : NodeAttempt} {id : WorkflowCycleId} (hflow : flow ∈ history.flowRuns)
      (hcycle : history.newestCycle? flow.id = some cycle)
      (hprog : interpreter.progress flow cycle history =
        .ok (.restartCycle node source.id))
      (hsrc : source ∈ history.attempts)
      (hnext : WorkflowCycle.restart id cycle source = .ok next)
      (hfresh : ∀ row ∈ history.cycles, row.id ≠ next.id) :
      Step interpreter history (.restart flow.id id)
        { history with cycles := history.cycles ++ [next] }

section Inversion

variable {interpreter : FlowInterpreter} {history next : FlowRuntimeHistory}

theorem toOption_eq_some {α : Type} {result : Except FactoryError α} {value : α} :
    result.toOption = some value ↔ result = .ok value := by
  cases result <;> simp [Except.toOption]

theorem flowRun?_eq_some {id : FlowRunId}
    (h : history.flowRun? id = some flow) : flow ∈ history.flowRuns ∧ flow.id = id :=
  ⟨mem_of_find?_eq_some h, by simpa using List.find?_some h⟩

theorem attempt?_mem {id : NodeAttemptId}
    (h : history.attempt? id = some attempt) : attempt ∈ history.attempts ∧ attempt.id = id :=
  ⟨mem_of_find?_eq_some h, by simpa using List.find?_some h⟩

theorem IsNext.of_isNext {flow : FlowRunId}
    (h : isNext history flow input = true) (hid : attempt.id = input.id)
    (hnum : attempt.number = input.number) (hflow : attempt.flowRunId = flow) :
    history.IsNext attempt := by
  unfold isNext at h
  rw [decide_eq_true_eq] at h
  obtain ⟨hfresh, hcount⟩ := h
  refine ⟨?_, by rw [hnum, hflow, hcount]⟩
  intro other hother heq
  rw [Option.isNone_iff_eq_none] at hfresh
  have := List.find?_eq_none.mp hfresh other hother
  simp [heq, hid] at this

/-- Everything a driven step can do. -/
theorem step_cases {command : FlowCommand} (h : interpreter.step history command = some next) :
    Step interpreter history command next := by
  cases command with
  | dispatch flowId input =>
    simp only [step, dispatch, bind, Option.bind_eq_some_iff, toOption_eq_some] at h
    obtain ⟨flow, hflow, cycle, hcycle, definition, hdef, ready, hready, h⟩ := h
    split at h
    · rename_i hguard
      obtain ⟨attempt, hatt, h⟩ := Option.bind_eq_some_iff.mp h
      cases h
      obtain ⟨hmem, rfl⟩ := flowRun?_eq_some hflow
      have hnew := NodeAttempt.new_eq_ok (toOption_eq_some.mp hatt)
      obtain ⟨hkey, hidle, hnext⟩ := hguard
      rw [← hnew.key] at hkey hidle
      exact .dispatch hmem hcycle (definition_eq_ok.mp hdef) hready hkey (by simpa using hidle)
        hnew (IsNext.of_isNext hnext hnew.id hnew.number hnew.flow)
    · cases h
  | complete attemptId input =>
    simp only [step, complete, bind, Option.bind_eq_some_iff, toOption_eq_some] at h
    obtain ⟨attempt, hatt, flow, hflow, definition, hdef, h⟩ := h
    split at h
    · rename_i hguard
      obtain ⟨completion, hcomp, h⟩ := Option.bind_eq_some_iff.mp h
      cases h
      obtain ⟨hmem, rfl⟩ := attempt?_mem hatt
      obtain ⟨hflowMem, hflowId⟩ := flowRun?_eq_some hflow
      have hok := toOption_eq_some.mp hcomp
      have hnew := NodeAttemptCompletion.new_eq_ok hok
      refine .complete hmem hflowMem hflowId (definition_eq_ok.mp hdef) hguard.1 ?_ hnew
      intro hkind
      rw [hguard.2 hkind]
      unfold NodeAttemptCompletion.new at hok
      obtain ⟨_, -, hok⟩ := bind_eq_ok.mp hok
      obtain ⟨-, hok⟩ := guard_eq_ok.mp hok
      obtain ⟨-, hok⟩ := check_eq_ok.mp hok
      obtain ⟨-, hok⟩ := check_eq_ok.mp hok
      cases hok
      rfl
    · cases h
  | stop attemptId ownership reason observedAt usage =>
    simp only [step, FlowInterpreter.stop, bind, Option.bind_eq_some_iff] at h
    obtain ⟨attempt, hatt, h⟩ := h
    split at h
    · rename_i hopen
      obtain ⟨receipt, hrcpt, h⟩ := Option.bind_eq_some_iff.mp h
      cases h
      obtain ⟨hmem, rfl⟩ := attempt?_mem hatt
      exact .stop hmem hopen (FlowNodeStop.new_eq_ok (toOption_eq_some.mp hrcpt))
    · cases h
  | retry attemptId input =>
    simp only [step, FlowInterpreter.retry, bind, Option.bind_eq_some_iff, toOption_eq_some] at h
    obtain ⟨previous, hprev, flow, hflow, cycle, hcycle, definition, hdef, node, hnode,
      receipt, hrcpt, attempt, hatt, retried, hretr, h⟩ := h
    split at h
    · rename_i hguard
      cases h
      obtain ⟨hmem, rfl⟩ := attempt?_mem hprev
      obtain ⟨hflowMem, hflowId⟩ := flowRun?_eq_some hflow
      have hnew := NodeAttempt.new_eq_ok hatt
      obtain ⟨hrow, -⟩ := NodeAttempt.withRetryOf_eq_ok hretr
      obtain ⟨hreason, htime, honce, hnext, hwith⟩ := hguard
      refine .retry hmem hflowMem hflowId (mem_of_find?_eq_some hcycle)
        (by simpa using List.find?_some hcycle) (definition_eq_ok.mp hdef) hnode hrcpt hreason
        ?_ hnew hretr ?_ ?_ hwith
      · rw [hrow]
        show receipt.observedAt ≤ attempt.startedAt
        rw [hnew.started]
        exact htime
      · intro row hrow' heq
        apply honce
        rw [any_eq_true]
        exact ⟨row, hrow', by simpa using heq⟩
      · refine IsNext.of_isNext hnext ?_ ?_ ?_
        · rw [hrow]
          exact hnew.id
        · rw [hrow]
          exact hnew.number
        · rw [hrow]
          exact hnew.flow
    · cases h
  | call attemptId child =>
    simp only [step, call, bind, Option.bind_eq_some_iff] at h
    obtain ⟨attempt, hatt, flow, hflow, nested, hnested, h⟩ := h
    split at h
    · rename_i hguard
      cases h
      obtain ⟨hmem, rfl⟩ := attempt?_mem hatt
      obtain ⟨hflowMem, hflowId⟩ := flowRun?_eq_some hflow
      simp only [Bool.not_eq_true, any_eq_false, decide_eq_true_eq, not_or] at hguard
      obtain ⟨hruns, hcycs⟩ := hguard
      exact .call hmem hflowMem hflowId hnested (fun row hrow => (hruns row hrow).1)
        (fun row hrow => (hruns row hrow).2) hcycs
    · cases h
  | restart flowId cycleId =>
    simp only [step, FlowInterpreter.restart, bind, Option.bind_eq_some_iff] at h
    obtain ⟨flow, hflow, cycle, hcycle, h⟩ := h
    split at h
    · rename_i node source hprog
      simp only [Option.bind_eq_some_iff, toOption_eq_some] at h
      obtain ⟨attempt, hatt, created, hcreat, h⟩ := h
      split at h
      · cases h
      · rename_i hfresh
        cases h
        obtain ⟨hmem, rfl⟩ := attempt?_mem hatt
        obtain ⟨hflowMem, rfl⟩ := flowRun?_eq_some hflow
        refine .restart hflowMem hcycle hprog hmem hcreat ?_
        intro row hrow heq
        rw [(WorkflowCycle.restart_eq_ok hcreat).2.2.1] at heq
        simp only [Bool.not_eq_true, any_eq_false, decide_eq_true_eq] at hfresh
        exact hfresh row hrow heq
    · cases h

variable {allowed : FlowRuntimeHistory → FlowCommand → FlowRuntimeHistory → Bool}
  {commands : List FlowCommand} {history : FlowRuntimeHistory}

variable {P : FlowRuntimeHistory → Prop} {root : FlowRun}

/-- Commands preserve what every allowed step keeps. -/
theorem drive_induction
    (hstep : ∀ history command next, P history → allowed history command next = true →
      interpreter.step history command = some next → P next)
    {start : FlowRuntimeHistory} (hstart : P start)
    (h : commands.foldlM (interpreter.drive allowed) start = some history) : P history := by
  induction commands generalizing start with
  | nil =>
    cases h
    exact hstart
  | cons command rest ih =>
    rw [foldlM_cons] at h
    obtain ⟨mid, hmid, h⟩ := Option.bind_eq_some_iff.mp h
    refine ih ?_ h
    unfold drive at hmid
    obtain ⟨next, hnext, hmid⟩ := Option.bind_eq_some_iff.mp hmid
    split at hmid
    · rename_i hallow
      cases hmid
      exact hstep start command _ hstart hallow hnext
    · cases hmid

/-- Runs preserve what holds of the first rows and is kept by every step. -/
theorem run_induction
    (hstart : P (FlowRuntimeHistory.start root))
    (hstep : ∀ history command next, P history → allowed history command next = true →
      interpreter.step history command = some next → P next)
    (h : interpreter.run allowed root commands = some history) : P history :=
  drive_induction hstep hstart h

/-- A run is continued from the rows it has reached. -/
theorem run_append {more : List FlowCommand}
    (h : interpreter.run allowed root commands = some history) :
    interpreter.run allowed root (commands ++ more) =
      more.foldlM (interpreter.drive allowed) history := by
  unfold run at h ⊢
  rw [foldlM_append, h]
  rfl

end Inversion

end OctaCity.Factory.Flow
