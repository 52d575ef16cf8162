/-
  OctaCity.Factory.Flow.RunRows

  Rows of a driven run: identities are distinct, every row is bound to the
  rows it names, attempts are numbered in the order they were appended, and
  cycles follow one another.  Nothing here depends on what the interpreter
  answered, only on the constructors and the freshness guards.
-/
import OctaCity.Factory.Flow.Steps

namespace OctaCity.Factory.Flow

open FlowInterpreter Lib List
open FlowRuntimeHistory

/-! ## Growing histories -/

/-- Rows are only added. -/
structure Extends (history next : FlowRuntimeHistory) : Prop where
  flowRuns : history.flowRuns ⊆ next.flowRuns
  cycles : history.cycles ⊆ next.cycles
  attempts : history.attempts ⊆ next.attempts
  completions : history.completions ⊆ next.completions
  stops : history.stops ⊆ next.stops

variable {flow : FlowRun} {cycle : WorkflowCycle} {attempt : NodeAttempt} {receipt : FlowNodeStop}

section Bounds

variable {validated : ValidatedFlowDefinitionClosure} {root : FlowRun}
  {history next : FlowRuntimeHistory}

theorem Step.extends {interpreter : FlowInterpreter} {command : FlowCommand}
    (h : Step interpreter history command next) : Extends history next := by
  have happend : ∀ {α : Type} (rows added : List α), rows ⊆ rows ++ added :=
    fun rows added => subset_append_left rows added
  cases h with
  | dispatch => exact ⟨fun _ h => h, fun _ h => h, happend _ _, fun _ h => h, fun _ h => h⟩
  | complete => exact ⟨fun _ h => h, fun _ h => h, fun _ h => h, happend _ _, fun _ h => h⟩
  | stop => exact ⟨fun _ h => h, fun _ h => h, fun _ h => h, fun _ h => h, happend _ _⟩
  | retry => exact ⟨fun _ h => h, fun _ h => h, happend _ _, fun _ h => h, fun _ h => h⟩
  | call => exact ⟨happend _ _, happend _ _, fun _ h => h, fun _ h => h, fun _ h => h⟩
  | restart => exact ⟨fun _ h => h, happend _ _, fun _ h => h, fun _ h => h, fun _ h => h⟩

/-- The Flow Run executes a pinned definition, nested ones under their call. -/
structure RunBound (validated : ValidatedFlowDefinitionClosure) (root : FlowRun)
    (history : FlowRuntimeHistory) (flow : FlowRun) : Prop where
  definition : ∃ definition, validated.closure.definition flow.definition = some definition
  factory : flow.factoryRunId = root.factoryRunId
  parent : ∀ parent, flow.parent = some parent →
    ∃ parentRun ∈ history.flowRuns, ∃ parentAttempt ∈ history.attempts,
      parentRun.id = parent.flowRunId ∧ parentAttempt.id = parent.nodeAttemptId ∧
      parentAttempt.flowRunId = parentRun.id ∧
      nestedDefinition validated parentRun parentAttempt = some flow.definition

/-- The cycle is the initial one of its Flow Run or follows its predecessor. -/
structure CycleBound (history : FlowRuntimeHistory) (cycle : WorkflowCycle) : Prop where
  initial : cycle.predecessor = none → ∃ flow ∈ history.flowRuns,
    cycle = WorkflowCycle.initial flow
  successor : ∀ predecessor, cycle.predecessor = some predecessor →
    ∃ previous ∈ history.cycles, previous.id = predecessor ∧
      previous.flowRunId = cycle.flowRunId ∧ previous.number.next? = some cycle.number ∧
      ∃ source ∈ history.attempts, cycle.sourceAttemptId = some source.id ∧
        source.workflowCycleId = previous.id

/-- The attempt repeats a failed one, within the declared retries. -/
structure RetryBound (validated : ValidatedFlowDefinitionClosure) (history : FlowRuntimeHistory)
    (attempt : NodeAttempt) (previousId : NodeAttemptId) : Prop where
  lineage : ∃ previous ∈ history.attempts, previous.id = previousId ∧
    attempt.withRetryOf previous = .ok attempt
  failed : ∃ receipt ∈ history.stops, receipt.nodeAttemptId = previousId ∧
    receipt.reason = .executionFailed ∧ receipt.observedAt ≤ attempt.startedAt
  bounded : ∃ flow ∈ history.flowRuns, ∃ definition node, flow.id = attempt.flowRunId ∧
    validated.closure.definition flow.definition = some definition ∧
    definition.node attempt.nodeKey = some node ∧
    history.retriesWithin node.maxExecutionRetries attempt = true

/-- The stop belongs to an attempt and was observed by its owner. -/
def StopBound (history : FlowRuntimeHistory) (receipt : FlowNodeStop) : Prop :=
  ∃ attempt ∈ history.attempts, FlowNodeStop.IsNew attempt receipt

section

variable (hext : Extends history next)

include hext

theorem RunBound.mono (h : RunBound validated root history flow) :
    RunBound validated root next flow := by
  refine ⟨h.definition, h.factory, ?_⟩
  intro parent hpar
  obtain ⟨run, hrun, attempt, hatt, hrest⟩ := h.parent parent hpar
  exact ⟨run, hext.flowRuns hrun, attempt, hext.attempts hatt, hrest⟩

theorem CycleBound.mono (h : CycleBound history cycle) : CycleBound next cycle := by
  refine ⟨?_, ?_⟩
  · intro hnone
    obtain ⟨flow, hflow, heq⟩ := h.initial hnone
    exact ⟨flow, hext.flowRuns hflow, heq⟩
  · intro predecessor hsome
    obtain ⟨previous, hprev, hid, hflow, hnum, source, hsrc, hrest⟩ :=
      h.successor predecessor hsome
    exact ⟨previous, hext.cycles hprev, hid, hflow, hnum, source, hext.attempts hsrc,
      hrest⟩

theorem AcceptedAttempt.mono (h : AcceptedAttempt validated history attempt) :
    AcceptedAttempt validated next attempt := by
  obtain ⟨⟨flow, hflow, cycle, hcycle, hrest⟩, hexec, hwin⟩ := h
  exact ⟨⟨flow, hext.flowRuns hflow, cycle, hext.cycles hcycle, hrest⟩, hexec, hwin⟩

theorem AcceptedCompletion.mono {completion : NodeAttemptCompletion}
    (h : AcceptedCompletion validated history completion) :
    AcceptedCompletion validated next completion := by
  obtain ⟨attempt, hatt, flow, hflow, hrest⟩ := h
  exact ⟨attempt, hext.attempts hatt, flow, hext.flowRuns hflow, hrest⟩

theorem StopBound.mono (h : StopBound history receipt) : StopBound next receipt := by
  obtain ⟨attempt, hatt, hnew⟩ := h
  exact ⟨attempt, hext.attempts hatt, hnew⟩

end

/-- Retries are counted along the same rows as before. -/
theorem retriesWithin_mono
    (hfind : ∀ id attempt, history.attempt? id = some attempt → next.attempt? id = some attempt)
    {maximum : Nat} (h : history.retriesWithin maximum attempt = true) :
    next.retriesWithin maximum attempt = true := by
  induction maximum generalizing attempt with
  | zero =>
    unfold retriesWithin at h ⊢
    cases hretry : attempt.retryOf with
    | none => rfl
    | some parent =>
      rw [hretry] at h
      cases h
  | succ maximum ih =>
    unfold retriesWithin at h ⊢
    cases hretry : attempt.retryOf with
    | none => rfl
    | some parent =>
      rw [hretry] at h
      simp only at h ⊢
      cases hprev : history.attempt? parent with
      | none =>
        rw [hprev] at h
        cases h
      | some previous =>
        rw [hprev] at h
        rw [hfind parent previous hprev]
        exact ih h

theorem RetryBound.mono (hext : Extends history next)
    (hfind : ∀ id attempt, history.attempt? id = some attempt → next.attempt? id = some attempt)
    {previousId : NodeAttemptId} (h : RetryBound validated history attempt previousId) :
    RetryBound validated next attempt previousId := by
  obtain ⟨⟨previous, hprev, hlineage⟩, ⟨receipt, hrcpt, hfailed⟩,
    ⟨flow, hflow, definition, node, hid, hdef, hnode, hwith⟩⟩ := h
  exact ⟨⟨previous, hext.attempts hprev, hlineage⟩, ⟨receipt, hext.stops hrcpt, hfailed⟩,
    ⟨flow, hext.flowRuns hflow, definition, node, hid, hdef, hnode,
      retriesWithin_mono hfind hwith⟩⟩

end Bounds

/-! ## The invariant -/

/-- Distinct identities and bound rows. -/
structure RunRows (validated : ValidatedFlowDefinitionClosure) (root : FlowRun)
    (history : FlowRuntimeHistory) : Prop where
  runs : (history.flowRuns.map FlowRun.id).Nodup
  cycles : (history.cycles.map WorkflowCycle.id).Nodup
  attempts : (history.attempts.map NodeAttempt.id).Nodup
  completed : (history.completions.map (·.nodeAttemptId)).Nodup
  stopped : (history.stops.map (·.nodeAttemptId)).Nodup
  exclusive : ∀ completion ∈ history.completions, ∀ receipt ∈ history.stops,
    completion.nodeAttemptId ≠ receipt.nodeAttemptId
  rooted : root ∈ history.flowRuns
  parents : (history.flowRuns.map FlowRun.parent).Nodup
  run : ∀ flow ∈ history.flowRuns, RunBound validated root history flow
  initial : ∀ flow ∈ history.flowRuns, WorkflowCycle.initial flow ∈ history.cycles
  cycle : ∀ cycle ∈ history.cycles, CycleBound history cycle
  successors : ∀ left ∈ history.cycles, ∀ right ∈ history.cycles, ∀ predecessor,
    left.predecessor = some predecessor → right.predecessor = some predecessor → left = right
  attempt : ∀ attempt ∈ history.attempts, AcceptedAttempt validated history attempt
  numbers : ∀ flow, (history.attempts.filter fun attempt => attempt.flowRunId = flow).map
    (·.number.value) = List.range' 1 (history.attemptCount flow)
  retry : ∀ attempt ∈ history.attempts, ∀ previousId, attempt.retryOf = some previousId →
    RetryBound validated history attempt previousId
  retried : ∀ left ∈ history.attempts, ∀ right ∈ history.attempts, ∀ previousId,
    left.retryOf = some previousId → right.retryOf = some previousId → left = right
  completion : ∀ completion ∈ history.completions, AcceptedCompletion validated history completion
  stop : ∀ receipt ∈ history.stops, StopBound history receipt

section Invariant

variable {interpreter : FlowInterpreter} {command : FlowCommand}
  {validated : ValidatedFlowDefinitionClosure}
  {root : FlowRun} {history next : FlowRuntimeHistory}

theorem isUnfinished_iff : isUnfinished history attempt = true ↔
      (∀ completion ∈ history.completions, completion.nodeAttemptId ≠ attempt.id) ∧
        ∀ receipt ∈ history.stops, receipt.nodeAttemptId ≠ attempt.id := by
  unfold isUnfinished isCompleted isStopped
  simp

theorem nestedDefinition_definition
    {nested : FlowDefinitionRef} (h : nestedDefinition validated flow attempt = some nested) :
    ∃ definition, validated.closure.definition nested = some definition := by
  unfold nestedDefinition at h
  obtain ⟨parent, hpar, h⟩ := Option.bind_eq_some_iff.mp h
  obtain ⟨node, hnode, h⟩ := Option.bind_eq_some_iff.mp h
  split at h
  · exact PinnedFlowDefinitionClosure.definition_of_calls ⟨parent, hpar,
      mem_filterMap.mpr ⟨node, (FlowDefinition.node_mem hnode).1, h⟩⟩
  · cases h

theorem RunRows.start (hpar : root.parent = none)
    (hdef : ∃ definition, validated.closure.definition root.definition = some definition) :
    RunRows validated root (FlowRuntimeHistory.start root) := by
  unfold FlowRuntimeHistory.start
  constructor
  case run =>
    intro flow hflow
    rw [mem_singleton.mp hflow]
    refine ⟨hdef, rfl, ?_⟩
    intro parent hsome
    rw [hpar] at hsome
    cases hsome
  case initial =>
    intro flow hflow
    rw [mem_singleton.mp hflow]
    exact mem_singleton_self _
  case cycle =>
    intro cycle hcycle
    rw [mem_singleton.mp hcycle]
    refine ⟨fun _ => ⟨root, mem_singleton_self _, rfl⟩, ?_⟩
    rintro predecessor ⟨⟩
  case successors =>
    intro left hleft right hright
    rw [mem_singleton.mp hleft, mem_singleton.mp hright]
    exact fun _ _ _ => rfl
  all_goals simp [attemptCount]

section

variable (h : RunRows validated root history)

include h

/-- The rows already there stay bound in a larger history. -/
theorem RunRows.mono (hext : Extends history next)
    (hfind : ∀ id found, history.attempt? id = some found → next.attempt? id = some found) :
    (∀ flow ∈ history.flowRuns, RunBound validated root next flow) ∧
    (∀ cycle ∈ history.cycles, CycleBound next cycle) ∧
    (∀ attempt ∈ history.attempts, AcceptedAttempt validated next attempt) ∧
    (∀ attempt ∈ history.attempts, ∀ previousId, attempt.retryOf = some previousId →
      RetryBound validated next attempt previousId) ∧
    (∀ completion ∈ history.completions, AcceptedCompletion validated next completion) ∧
    ∀ receipt ∈ history.stops, StopBound next receipt :=
  ⟨fun flow hflow => (h.run flow hflow).mono hext, fun cycle hcycle => (h.cycle cycle hcycle).mono hext,
    fun attempt hatt => (h.attempt attempt hatt).mono hext,
    fun attempt hatt previousId hsome =>
      (h.retry attempt hatt previousId hsome).mono hext hfind,
    fun completion hmem => (h.completion completion hmem).mono hext,
    fun receipt hmem => (h.stop receipt hmem).mono hext⟩

/-- A new attempt keeps the invariant when it is bound and next. -/
theorem RunRows.withAttempt
    (hext : Extends history { history with attempts := history.attempts ++ [attempt] })
    (hnext : history.IsNext attempt) (hbound : AcceptedAttempt validated history attempt)
    (hretry : ∀ previousId, attempt.retryOf = some previousId →
      RetryBound validated { history with attempts := history.attempts ++ [attempt] } attempt
        previousId ∧ ∀ row ∈ history.attempts, row.retryOf ≠ some previousId) :
    RunRows validated root { history with attempts := history.attempts ++ [attempt] } := by
  have hfind : ∀ id found, history.attempt? id = some found →
      ({ history with attempts := history.attempts ++ [attempt] } :
        FlowRuntimeHistory).attempt? id = some found := by
    intro id found hfound
    unfold attempt? at hfound ⊢
    rw [List.find?_append, hfound]
    rfl
  obtain ⟨hrun, hcycle, hatt, hretr, hcomp, hstop⟩ := h.mono hext hfind
  refine { h with
    run := hrun, cycle := hcycle, completion := hcomp, stop := hstop
    attempts := nodup_map_concat.mpr ⟨h.attempts, hnext.fresh⟩
    attempt := forall_mem_concat.mpr ⟨hatt, hbound.mono hext⟩
    retry := forall_mem_concat.mpr ⟨hretr, fun previousId hsome => (hretry previousId hsome).1⟩
    numbers := fun flow => ?_
    retried := unique_concat h.retried fun previousId hsome => (hretry previousId hsome).2 }
  unfold attemptCount
  rw [filter_append, map_append, countP_append, h.numbers flow]
  by_cases hflow : attempt.flowRunId = flow
  · subst hflow
    have hnum := hnext.number
    simp only [filter_cons, filter_nil, countP_cons, countP_nil, decide_true,
      if_true, map_cons, map_nil, hnum]
    rw [zero_add, List.range'_1_concat, Nat.add_comm 1]
    rfl
  · simp [hflow, attemptCount]

theorem RunRows.no_successor_of_newest {flow : FlowRunId} {other : WorkflowCycle}
    (hnewest : history.newestCycle? flow = some cycle) (hother : other ∈ history.cycles) :
    other.predecessor ≠ some cycle.id := by
  obtain ⟨hcycle, hflow, hmax⟩ := newestCycle?_spec hnewest
  intro hsome
  obtain ⟨previous, hprev, hid, hsame, hnum, -⟩ :=
    (h.cycle other hother).successor cycle.id hsome
  have heq : previous = cycle := inj_on_of_nodup_map h.cycles hprev hcycle hid
  subst heq
  have hle := hmax other hother (by rw [← hsame, hflow])
  have hlt := Sequence.lt_of_next? hnum
  exact absurd hle (not_le.mpr hlt)

/-- A new completion keeps the invariant when its attempt is unfinished. -/
theorem RunRows.withCompletion {completion : NodeAttemptCompletion}
    (hext : Extends history { history with completions := history.completions ++ [completion] })
    (hid : completion.nodeAttemptId = attempt.id) (hopen : isUnfinished history attempt = true)
    (hbound : AcceptedCompletion validated history completion) : RunRows validated root
      { history with completions := history.completions ++ [completion] } := by
  obtain ⟨hfresh, hstops⟩ := isUnfinished_iff.mp hopen
  obtain ⟨hrun, hcycle, hatt, hretry, hcomp, hstop⟩ :=
    h.mono hext fun _ _ hfound => hfound
  refine { h with
    run := hrun, cycle := hcycle, attempt := hatt, retry := hretry, stop := hstop
    completed := nodup_map_concat.mpr ⟨h.completed, fun row hrow => ?_⟩
    exclusive := forall_mem_concat.mpr ⟨h.exclusive, fun receipt hrcpt => ?_⟩
    completion := forall_mem_concat.mpr ⟨hcomp, hbound.mono hext⟩ }
  · rw [hid]
    exact hfresh row hrow
  · rw [hid]
    exact fun heq => hstops receipt hrcpt heq.symm

theorem RunRows.withStop
    (hext : Extends history { history with stops := history.stops ++ [receipt] })
    (hatt : attempt ∈ history.attempts) (hopen : isUnfinished history attempt = true)
    (hnew : FlowNodeStop.IsNew attempt receipt) :
    RunRows validated root { history with stops := history.stops ++ [receipt] } := by
  obtain ⟨hcomps, hfresh⟩ := isUnfinished_iff.mp hopen
  obtain ⟨hrun, hcycle, hatts, hretry, hcomp, hstop⟩ :=
    h.mono hext fun _ _ hfound => hfound
  refine { h with
    run := hrun, cycle := hcycle, attempt := hatts, retry := hretry, completion := hcomp
    stopped := nodup_map_concat.mpr ⟨h.stopped, fun row hrow => ?_⟩
    exclusive := fun row hrow => forall_mem_concat.mpr ⟨h.exclusive row hrow, ?_⟩
    stop := forall_mem_concat.mpr ⟨hstop, attempt, hatt, hnew⟩ }
  · rw [hnew.id]
    exact hfresh row hrow
  · rw [hnew.id]
    exact hcomps row hrow

/-- A new nested Flow Run arrives with its initial cycle. -/
theorem RunRows.withRun {child : FlowRun}
    (hext : Extends history { history with
      flowRuns := history.flowRuns ++ [child]
      cycles := history.cycles ++ [WorkflowCycle.initial child] })
    (hfresh : ∀ row ∈ history.flowRuns, row.id ≠ child.id)
    (honce : ∀ row ∈ history.flowRuns, row.parent ≠ child.parent)
    (hfreshCycle : ∀ row ∈ history.cycles, row.id ≠ (WorkflowCycle.initial child).id)
    (hbound : RunBound validated root history child) : RunRows validated root { history with
      flowRuns := history.flowRuns ++ [child]
      cycles := history.cycles ++ [WorkflowCycle.initial child] } := by
  obtain ⟨hrun, hcycle, hatt, hretry, hcomp, hstop⟩ :=
    h.mono hext fun _ _ hfound => hfound
  refine { h with
    runs := nodup_map_concat.mpr ⟨h.runs, hfresh⟩
    cycles := nodup_map_concat.mpr ⟨h.cycles, hfreshCycle⟩
    parents := nodup_map_concat.mpr ⟨h.parents, honce⟩
    rooted := mem_append_left _ h.rooted
    attempt := hatt, retry := hretry, completion := hcomp, stop := hstop
    run := forall_mem_concat.mpr ⟨hrun, hbound.mono hext⟩
    initial := forall_mem_concat.mpr ⟨fun flow hflow => mem_append_left _ (h.initial flow hflow),
      mem_append_right _ (mem_singleton_self _)⟩
    cycle := forall_mem_concat.mpr ⟨hcycle,
      fun _ => ⟨child, mem_append_right _ (mem_singleton_self _), rfl⟩, nofun⟩
    successors := unique_concat h.successors nofun }

/-- A new cycle keeps the invariant when nothing followed its predecessor. -/
theorem RunRows.withCycle
    (hext : Extends history { history with cycles := history.cycles ++ [cycle] })
    (hfresh : ∀ row ∈ history.cycles, row.id ≠ cycle.id)
    (honce : ∀ row ∈ history.cycles, row.predecessor ≠ cycle.predecessor)
    (hbound : CycleBound history cycle) :
    RunRows validated root { history with cycles := history.cycles ++ [cycle] } := by
  obtain ⟨hrun, hcycle, hatt, hretry, hcomp, hstop⟩ :=
    h.mono hext fun _ _ hfound => hfound
  refine { h with
    cycles := nodup_map_concat.mpr ⟨h.cycles, hfresh⟩
    run := hrun, attempt := hatt, retry := hretry, completion := hcomp, stop := hstop
    initial := fun flow hflow => mem_append_left _ (h.initial flow hflow)
    cycle := forall_mem_concat.mpr ⟨hcycle, hbound.mono hext⟩
    successors := unique_concat h.successors fun _ hsome row hrow =>
      hsome ▸ honce row hrow }

end

/-- The retried attempt is bound like the one it repeats. -/
theorem RunRows.retryBound {previous retried : NodeAttempt} {definition : FlowDefinition}
    {node : FlowNodeDefinition} {input : NodeAttemptInput} (hprev : previous ∈ history.attempts)
    (hflow : flow ∈ history.flowRuns)
    (hdef : validated.closure.definition flow.definition = some definition)
    (hnode : definition.node previous.nodeKey = some node)
    (hrcpt : history.stops.find? (·.nodeAttemptId = previous.id) = some receipt)
    (hreason : receipt.reason = .executionFailed) (htime : receipt.observedAt ≤ retried.startedAt)
    (hnew : NodeAttempt.IsNew flow cycle definition input attempt)
    (hretr : attempt.withRetryOf previous = .ok retried)
    (hwith : history.retriesWithin node.maxExecutionRetries retried = true) :
    RetryBound validated history retried previous.id := by
  obtain ⟨rfl, -, -, hkey, -, hagain⟩ := NodeAttempt.withRetryOf_eq_ok hretr
  exact ⟨⟨previous, hprev, rfl, hagain⟩,
    ⟨receipt, mem_of_find?_eq_some hrcpt, by simpa using List.find?_some hrcpt, hreason,
      htime⟩,
    ⟨flow, hflow, definition, node, hnew.flow.symm, hdef, by rw [← hnode, ← hkey], hwith⟩⟩

theorem RunRows.step (h : RunRows interpreter.validated root history)
    (hstep : Step interpreter history command next) : RunRows interpreter.validated root next := by
  have hext := hstep.extends
  cases hstep with
  | dispatch hflow hcycle hdef hready hkey hidle hnew hnext =>
    refine h.withAttempt hext hnext ?_ ?_
    · obtain ⟨hmem, -, -⟩ := newestCycle?_spec hcycle
      obtain ⟨node, hnode, hkind, hbud⟩ := hnew.node
      exact ⟨⟨_, hflow, _, hmem, _, node, hnew.flow.symm, hnew.cycle.symm, hdef, hnode,
        hnew.factory, hnew.owner, hkind, hbud⟩, hnew.execution, hnew.window⟩
    · intro previousId hsome
      rw [hnew.retryOf] at hsome
      cases hsome
  | complete hatt hflow howner hdef hopen hchild hnew =>
    refine h.withCompletion hext hnew.id hopen ?_
    exact ⟨_, hatt, _, hflow, _, hnew.id.symm, howner, hdef, hnew.flow.symm, hnew.cycle.symm,
      hnew.node.symm, hnew.owner, hnew.fence, hnew.usage, hnew.declares⟩
  | stop hatt hopen hnew => exact h.withStop hext hatt hopen hnew
  | retry hprev hflow howner hcycle hcycleId hdef hnode hrcpt hreason htime hnew hretr
      honce hnext hwith =>
    have hbound := RunRows.retryBound hprev hflow hdef hnode hrcpt hreason htime hnew
      hretr hwith
    obtain ⟨rfl, -, -, hkey, -, -⟩ := NodeAttempt.withRetryOf_eq_ok hretr
    refine h.withAttempt hext hnext ?_ ?_
    · obtain ⟨found, hfound, hkind, hbud⟩ := hnew.node
      exact ⟨⟨_, hflow, _, hcycle, _, found, hnew.flow.symm, hnew.cycle.symm, hdef, hfound,
        hnew.factory, hnew.owner, hkind, hbud⟩, hnew.execution, hnew.window⟩
    · rintro previousId ⟨⟩
      refine ⟨hbound.mono hext ?_, honce⟩
      intro id found hfound
      unfold attempt? at hfound ⊢
      rw [List.find?_append, hfound]
      rfl
  | call hatt hflow howner hnested honce hfresh hfreshCycle =>
    refine h.withRun hext hfresh honce hfreshCycle ⟨?_, (h.run _ hflow).factory, ?_⟩
    · obtain ⟨definition, hdef⟩ := nestedDefinition_definition hnested
      exact ⟨definition, hdef⟩
    · rintro parent ⟨⟩
      exact ⟨_, hflow, _, hatt, rfl, rfl, howner.symm, hnested⟩
  | restart hflow hcycle hprog hsrc hnext hfresh =>
    obtain ⟨-, hscyc, -, hflowId, hnum, hpred, hsourceId⟩ :=
      WorkflowCycle.restart_eq_ok hnext
    refine h.withCycle hext hfresh ?_ ⟨?_, ?_⟩
    · rw [hpred]
      exact fun row hrow => h.no_successor_of_newest hcycle hrow
    · intro hnone
      rw [hpred] at hnone
      cases hnone
    · intro predecessor hsome
      rw [hpred] at hsome
      cases hsome
      exact ⟨_, (newestCycle?_spec hcycle).1, rfl, hflowId.symm, hnum, _, hsrc, hsourceId,
        hscyc⟩

end Invariant

end OctaCity.Factory.Flow
