/-
  OctaCity.Factory.Flow.Acceptance

  The history validator as a statement about rows.  `Accepted` says what each
  row of an accepted history satisfies, without the validator's tables and
  traversal orders, and `validateFlowRuntimeHistory_eq_ok` is the equivalence.
-/
import OctaCity.Factory.Flow.Driver
import OctaCity.Factory.Flow.Directives

namespace OctaCity.Factory.Flow

open Lib List

variable {admitted : AdmittedFlow} {validated : ValidatedFlowDefinitionClosure}
  {history : FlowRuntimeHistory}

/-! ## Rows by identity -/

theorem uniqueBy_eq_ok {α κ : Type} [LinearOrder κ] {key : α → κ} {field : String}
    {rows : List α} {table : Table key} (h : uniqueBy key field rows = .ok table) :
    (rows.map key).Nodup ∧ table.rows.Perm rows := by
  have hperm : table.rows.Perm rows := by simpa [Table.empty] using Table.insertAll_eq_ok h
  exact ⟨(hperm.map key).nodup_iff.mp table.keys_nodup, hperm⟩

theorem uniqueBy_isOk {α κ : Type} [LinearOrder κ] {key : α → κ} {rows : List α}
    (field : String) (h : (rows.map key).Nodup) : ∃ table, uniqueBy key field rows = .ok table :=
  Table.insertAll_isOk _ _ _ (by simpa [Table.empty] using h)

/-- Rows with distinct keys, listed one after the other. -/
theorem nodup_map_iff_splits {α κ : Type} [DecidableEq κ] {key : α → κ} {rows : List α} :
    (rows.map key).Nodup ↔ ∀ before row after, rows = before ++ row :: after →
      ∀ earlier ∈ before, key earlier ≠ key row := by
  induction rows using List.reverseRecOn with
  | nil => simp
  | append_singleton rows last ih =>
    rw [map_append, nodup_append, ih]
    constructor
    · rintro ⟨hsplit, -, hlast⟩ before row after heq earlier hearl
      rcases eq_nil_or_concat after with rfl | ⟨after, final, rfl⟩
      · obtain ⟨rfl, hrow⟩ := append_inj' heq rfl
        cases hrow
        exact hlast _ (mem_map_of_mem hearl) _ (by simp)
      · rw [concat_eq_append, ← cons_append, ← append_assoc] at heq
        obtain ⟨rfl, -⟩ := append_inj' heq rfl
        exact hsplit before row after rfl earlier hearl
    · intro h
      refine ⟨?_, by simp, ?_⟩
      · intro before row after heq
        exact h before row (after ++ [last]) (by rw [heq]; simp)
      · rintro _ hmem _ hlast
        obtain ⟨earlier, hearl, rfl⟩ := mem_map.mp hmem
        rw [map_singleton, mem_singleton] at hlast
        rw [hlast]
        exact h rows last [] rfl earlier hearl

variable {flow : FlowRunId} {cycle : WorkflowCycle}

theorem newestCycle?_spec (h : history.newestCycle? flow = some cycle) :
    cycle ∈ history.cycles ∧ cycle.flowRunId = flow ∧
      ∀ other ∈ history.cycles, other.flowRunId = flow → other.number ≤ cycle.number := by
  unfold FlowRuntimeHistory.newestCycle? FlowRuntimeHistory.runCycles at h
  have hmem := mem_of_find?_eq_some h
  rw [mem_filter, decide_eq_true_eq] at hmem
  refine ⟨hmem.1, hmem.2, ?_⟩
  intro other hother hflow
  have hall := List.find?_some h
  rw [all_eq_true] at hall
  simpa using hall other (mem_filter.mpr ⟨hother, by simpa using hflow⟩)

/-! ## Accepted rows -/

/-- The Flow Run executes a pinned definition, nested ones under one exact call. -/
structure AcceptedRun (root : FlowRun) (validated : ValidatedFlowDefinitionClosure)
    (history : FlowRuntimeHistory) (flowRun : FlowRun) : Prop where
  definition : ∃ definition, validated.closure.definition flowRun.definition = some definition
  factory : flowRun.factoryRunId = root.factoryRunId
  parent : ∀ parent, flowRun.parent = some parent →
    history.flowRuns.countP (fun row => row.parent = some parent) = 1 ∧
    ∃ parentRun ∈ history.flowRuns, ∃ parentAttempt ∈ history.attempts,
      parentRun.id = parent.flowRunId ∧ parentAttempt.id = parent.nodeAttemptId ∧
      parentAttempt.flowRunId = parentRun.id ∧
      nestedDefinition validated parentRun parentAttempt = some flowRun.definition

/-- The cycles of a Flow Run form one sequence from its initial cycle. -/
structure AcceptedCycles (validated : ValidatedFlowDefinitionClosure)
    (history : FlowRuntimeHistory) (flowRun : FlowRun) : Prop where
  initial : ∃ initial ∈ history.cycles, initial.flowRunId = flowRun.id ∧
    initial.predecessor = none ∧ isInitialCycle flowRun initial = true ∧
    ∀ other ∈ history.cycles, other.flowRunId = flowRun.id → other.predecessor = none →
      other = initial
  successor : ∀ cycle ∈ history.cycles, cycle.flowRunId = flowRun.id →
    ∀ predecessor, cycle.predecessor = some predecessor →
      (∃ previous ∈ history.cycles, previous.id = predecessor ∧
        previous.flowRunId = flowRun.id ∧ previous.number.next? = some cycle.number) ∧
      history.cycles.countP (fun row => row.predecessor = some predecessor) = 1 ∧
      ∃ entry, FlowInterpreter.cycleEntry ⟨validated⟩ flowRun cycle history = .ok entry

/-- The attempt executes a declared node of its Flow Run in one of its cycles. -/
structure AcceptedAttempt (validated : ValidatedFlowDefinitionClosure)
    (history : FlowRuntimeHistory) (attempt : NodeAttempt) : Prop where
  bound : ∃ flowRun ∈ history.flowRuns, ∃ cycle ∈ history.cycles, ∃ definition node,
    flowRun.id = attempt.flowRunId ∧ cycle.id = attempt.workflowCycleId ∧
    validated.closure.definition flowRun.definition = some definition ∧
    definition.node attempt.nodeKey = some node ∧
    attempt.factoryRunId = flowRun.factoryRunId ∧ cycle.flowRunId = flowRun.id ∧
    attempt.nodeKind = node.kind ∧ attempt.budget = node.budget
  execution : attempt.execution.isCompatible attempt.nodeKind = true
  window : attempt.validateExecutionWindow = .ok ()

/-- Traversals of the Flow Run at or below an attempt number. -/
def FlowRuntimeHistory.countThrough (history : FlowRuntimeHistory) (flow : FlowRunId)
    (node outcome : FactoryKey) (number : NodeAttemptNumber) : Nat :=
  history.completions.countP fun row =>
    row.flowRunId = flow ∧ row.nodeKey = node ∧ row.outcome = outcome ∧
    (history.attempt? row.nodeAttemptId).any fun attempt => attempt.number ≤ number

/-- The attempt repeats a failed one, within the declared retries. -/
structure AcceptedRetry (definition : FlowDefinition) (history : FlowRuntimeHistory)
    (attempt : NodeAttempt) (previousId : NodeAttemptId) : Prop where
  lineage : ∃ previous ∈ history.attempts, previous.id = previousId ∧
    attempt.withRetryOf previous = .ok attempt
  failed : ∃ receipt, history.stops.find? (·.nodeAttemptId = previousId) = some receipt ∧
    receipt.reason = .executionFailed ∧ receipt.observedAt ≤ attempt.startedAt
  once : history.attempts.countP (fun row => row.retryOf = some previousId) = 1
  bounded : ∃ node, definition.node attempt.nodeKey = some node ∧
    history.retriesWithin node.maxExecutionRetries attempt = true

/-- A completed earlier attempt of the cycle routes to the node. -/
def DeclaredSuccessor (definition : FlowDefinition) (history : FlowRuntimeHistory)
    (attempt : NodeAttempt) : Prop :=
  ∃ predecessor ∈ history.attempts, predecessor.flowRunId = attempt.flowRunId ∧
    predecessor.workflowCycleId = attempt.workflowCycleId ∧
    predecessor.number < attempt.number ∧ ∃ completion,
      history.completion? predecessor.id = some completion ∧
      ∃ transition ∈ definition.transitions, transition.startsCycle = false ∧
        transition.routes predecessor.nodeKey completion.outcome = true ∧
        transition.selectedNode (history.countThrough completion.flowRunId completion.nodeKey
          completion.outcome predecessor.number) = some attempt.nodeKey

/-- How the attempt was reached: by a retry, as a cycle's entry or as a
    declared successor. -/
structure AcceptedRoute (validated : ValidatedFlowDefinitionClosure)
    (definition : FlowDefinition) (history : FlowRuntimeHistory) (flowRun : FlowRun)
    (attempt : NodeAttempt) : Prop where
  retry : ∀ previousId, attempt.retryOf = some previousId →
    AcceptedRetry definition history attempt previousId
  entry : attempt.retryOf = none →
    (∀ other ∈ history.attempts, other.flowRunId = attempt.flowRunId →
      other.workflowCycleId = attempt.workflowCycleId → ¬ other.number < attempt.number) →
    ∃ cycle ∈ history.cycles, cycle.id = attempt.workflowCycleId ∧
      FlowInterpreter.cycleEntry ⟨validated⟩ flowRun cycle history = .ok attempt.nodeKey
  successor : attempt.retryOf = none →
    (∃ other ∈ history.attempts, other.flowRunId = attempt.flowRunId ∧
      other.workflowCycleId = attempt.workflowCycleId ∧ other.number < attempt.number) →
    DeclaredSuccessor definition history attempt

/-- The completion is a typed result of its attempt. -/
def AcceptedCompletion (validated : ValidatedFlowDefinitionClosure)
    (history : FlowRuntimeHistory) (completion : NodeAttemptCompletion) : Prop :=
  ∃ attempt ∈ history.attempts, ∃ flowRun ∈ history.flowRuns, ∃ definition,
    attempt.id = completion.nodeAttemptId ∧ flowRun.id = attempt.flowRunId ∧
    validated.closure.definition flowRun.definition = some definition ∧
    attempt.flowRunId = completion.flowRunId ∧
    attempt.workflowCycleId = completion.workflowCycleId ∧
    attempt.nodeKey = completion.nodeKey ∧
    attempt.acceptsCompletionOwner completion.ownership = true ∧
    completion.ownership.claim.verifyFence completion.ownership.claim.fence
      completion.observedAt = .ok () ∧
    completion.usage.validate attempt.budget = .ok () ∧
    definition.declaresOutcome completion = true

/-- The stop ends an attempt without a result. -/
def AcceptedStop (history : FlowRuntimeHistory) (receipt : FlowNodeStop) : Prop :=
  ∃ attempt ∈ history.attempts, attempt.id = receipt.nodeAttemptId ∧
    history.isCompleted attempt.id = false ∧
    attempt.verifyObserver receipt.ownership receipt.observedAt = .ok () ∧
    receipt.usage.attempts = 0 ∧ receipt.usage.outputBytes ≤ attempt.budget.maxOutputBytes

/-- What the validator establishes about every row of a history. -/
structure Accepted (admitted : AdmittedFlow) (validated : ValidatedFlowDefinitionClosure)
    (history : FlowRuntimeHistory) : Prop where
  runs : (history.flowRuns.map FlowRun.id).Nodup
  cycles : (history.cycles.map WorkflowCycle.id).Nodup
  attempts : (history.attempts.map NodeAttempt.id).Nodup
  root : admitted.rootRun ∈ history.flowRuns
  rooted : history.flowRuns.countP (fun flowRun => flowRun.parent = none) = 1
  run : ∀ flowRun ∈ history.flowRuns, AcceptedRun admitted.rootRun validated history flowRun
  initial : admitted.initialCycle ∈ history.cycles
  cycle : ∀ flowRun ∈ history.flowRuns, AcceptedCycles validated history flowRun
  attempt : ∀ attempt ∈ history.attempts, AcceptedAttempt validated history attempt
  numbered : ∀ attempt ∈ history.attempts, isNumberedInSequence history attempt.flowRunId = true
  route : ∀ flowRun ∈ history.flowRuns, ∀ definition,
    validated.closure.definition flowRun.definition = some definition →
    ∀ attempt ∈ history.attempts, attempt.flowRunId = flowRun.id →
      AcceptedRoute validated definition history flowRun attempt
  completed : (history.completions.map (·.nodeAttemptId)).Nodup
  completion : ∀ completion ∈ history.completions, AcceptedCompletion validated history completion
  stopped : (history.stops.map (·.nodeAttemptId)).Nodup
  stop : ∀ receipt ∈ history.stops, AcceptedStop history receipt
  wip : history.activeNodeCount ≤ validated.limits.maxWip
  budgets : ∃ usage, history.observedUsageByFlow = .ok usage ∧
    validateFlowBudgets admitted history usage = .ok ()

/-! ## The checks, one by one -/

section Checks

variable {flowRuns : Table FlowRun.id} {cycles : Table WorkflowCycle.id}
  {attempts : Table NodeAttempt.id}

theorem find?_eq_some_of_perm {α κ : Type} [LinearOrder κ] {key : α → κ} {table : Table key}
    {rows : List α} (hperm : table.rows.Perm rows) {k : κ} {row : α} :
    table.find? k = some row ↔ row ∈ rows ∧ key row = k := by
  rw [Table.find?_eq_some_iff, hperm.mem_iff]

variable {attempt : NodeAttempt} {flowRun : FlowRun} {definition : FlowDefinition}

variable {id : NodeAttemptId} {completion : NodeAttemptCompletion} {earlier : List NodeAttempt}

theorem attempt?_eq_some (hnodup : (history.attempts.map NodeAttempt.id).Nodup) :
    history.attempt? id = some attempt ↔ attempt ∈ history.attempts ∧ attempt.id = id :=
  find?_key_eq_some hnodup

theorem completion?_eq_some (hnodup : (history.completions.map (·.nodeAttemptId)).Nodup) :
    history.completion? id = some completion ↔
      completion ∈ history.completions ∧ completion.nodeAttemptId = id :=
  find?_key_eq_some hnodup

theorem validateFlowRun_eq_ok (hruns : flowRuns.rows.Perm history.flowRuns)
    (hatts : attempts.rows.Perm history.attempts) :
    validateFlowRun admitted validated flowRuns attempts history flowRun = .ok () ↔
      AcceptedRun admitted.rootRun validated history flowRun := by
  have hpar : ∀ definition, validated.closure.definition flowRun.definition = some definition →
      ∀ parent, validateParent validated flowRuns attempts history definition parent = .ok () ↔
        history.flowRuns.countP (fun row => row.parent = some parent) = 1 ∧
        ∃ parentRun ∈ history.flowRuns, ∃ parentAttempt ∈ history.attempts,
          parentRun.id = parent.flowRunId ∧ parentAttempt.id = parent.nodeAttemptId ∧
          parentAttempt.flowRunId = parentRun.id ∧
          nestedDefinition validated parentRun parentAttempt = some flowRun.definition := by
    intro definition hdef parent
    have href := (PinnedFlowDefinitionClosure.definition_mem hdef).2
    unfold validateParent
    simp only [guard_eq_ok, bind_eq_ok, okOr_eq_ok, find?_eq_some_of_perm hruns,
      find?_eq_some_of_perm hatts, not_or, not_not, href, ne_eq, and_true]
    constructor
    · rintro ⟨hcount, run, ⟨hrun, hrunId⟩, attempt, ⟨hatt, haid⟩, hflow, hnested⟩
      exact ⟨hcount, run, hrun, attempt, hatt, hrunId, haid, hflow, hnested⟩
    · rintro ⟨hcount, run, hrun, attempt, hatt, hrunId, haid, hflow, hnested⟩
      exact ⟨hcount, run, ⟨hrun, hrunId⟩, attempt, ⟨hatt, haid⟩, hflow, hnested⟩
  unfold validateFlowRun
  simp only [bind_eq_ok, okOr_eq_ok, guard_eq_ok, ne_eq, not_not]
  constructor
  · rintro ⟨definition, hdef, hfact, h⟩
    refine ⟨⟨definition, hdef⟩, hfact, ?_⟩
    intro parent heq
    rw [heq] at h
    exact (hpar definition hdef parent).mp h
  · rintro ⟨⟨definition, hdef⟩, hfact, h⟩
    refine ⟨definition, hdef, hfact, ?_⟩
    cases heq : flowRun.parent with
    | none => rfl
    | some parent => exact (hpar definition hdef parent).mpr (h parent heq)

theorem validateCycleSequence_eq_ok (hcycs : cycles.rows.Perm history.cycles) :
    validateCycleSequence validated cycles history flowRun cycle = .ok () ↔
      ∀ predecessor, cycle.predecessor = some predecessor →
        (∃ previous ∈ history.cycles, previous.id = predecessor ∧
          previous.flowRunId = flowRun.id ∧ previous.number.next? = some cycle.number) ∧
        history.cycles.countP (fun row => row.predecessor = some predecessor) = 1 ∧
        ∃ entry, FlowInterpreter.cycleEntry ⟨validated⟩ flowRun cycle history = .ok entry := by
  unfold validateCycleSequence
  cases hpred : cycle.predecessor with
  | none => simp
  | some predecessor =>
    simp only [bind_eq_ok, okOr_eq_ok, guard_eq_ok, find?_eq_some_of_perm hcycs, ne_eq, not_or,
      not_not, hcycs.countP_eq, and_true, Option.some.injEq, forall_eq']
    constructor
    · rintro ⟨previous, ⟨hmem, hid⟩, ⟨hflow, hnum, hcount⟩, entry, hentry⟩
      exact ⟨⟨previous, hmem, hid, hflow, hnum⟩, hcount, entry, hentry⟩
    · rintro ⟨⟨previous, hmem, hid, hflow, hnum⟩, hcount, entry, hentry⟩
      exact ⟨previous, ⟨hmem, hid⟩, ⟨hflow, hnum, hcount⟩, entry, hentry⟩

theorem validateRunCycles_eq_ok (hcycs : cycles.rows.Perm history.cycles) :
    validateRunCycles validated cycles history flowRun = .ok () ↔
      AcceptedCycles validated history flowRun := by
  have hmem : ∀ cycle, cycle ∈ cycles.rows.filter (fun cycle => cycle.flowRunId = flowRun.id) ↔
      cycle ∈ history.cycles ∧ cycle.flowRunId = flowRun.id := by
    intro cycle
    rw [mem_filter, hcycs.mem_iff, decide_eq_true_eq]
  have hfirst : ∀ cycle, cycle ∈ (cycles.rows.filter fun cycle => cycle.flowRunId = flowRun.id).filter
      (fun cycle => cycle.predecessor = none) ↔
      (cycle ∈ history.cycles ∧ cycle.flowRunId = flowRun.id) ∧ cycle.predecessor = none := by
    intro cycle
    rw [mem_filter, hmem, decide_eq_true_eq]
  have hnodup : ((cycles.rows.filter fun cycle => cycle.flowRunId = flowRun.id).filter
      fun cycle => cycle.predecessor = none).Nodup :=
    ((List.Nodup.of_map _ cycles.keys_nodup).filter _).filter _
  unfold validateRunCycles
  dsimp only
  constructor
  · intro h
    split at h
    · rename_i initial heq
      obtain ⟨hinit, h⟩ := guard_eq_ok.mp h
      rw [not_not] at hinit
      have hin := (hfirst initial).mp (by rw [heq]; exact mem_singleton_self _)
      refine ⟨⟨initial, hin.1.1, hin.1.2, hin.2, hinit, ?_⟩, ?_⟩
      · intro other hother hflow hpred
        have := (hfirst other).mpr ⟨⟨hother, hflow⟩, hpred⟩
        rw [heq] at this
        exact mem_singleton.mp this
      · intro cycle hcycle hflow
        exact (validateCycleSequence_eq_ok hcycs).mp
          (forM_eq_ok.mp h cycle ((hmem cycle).mpr ⟨hcycle, hflow⟩))
    · cases h
  · rintro ⟨⟨initial, hin, hflow, hpred, hinit, huniq⟩, hsucc⟩
    have heq : ((cycles.rows.filter fun cycle => cycle.flowRunId = flowRun.id).filter
        fun cycle => cycle.predecessor = none) = [initial] := by
      refine perm_singleton.mp ((perm_ext_iff_of_nodup hnodup ?_).mpr ?_)
      · exact nodup_singleton _
      · intro cycle
        rw [hfirst, mem_singleton]
        constructor
        · rintro ⟨⟨hc, hf⟩, hp⟩
          exact huniq cycle hc hf hp
        · rintro rfl
          exact ⟨⟨hin, hflow⟩, hpred⟩
    rw [heq]
    refine guard_eq_ok.mpr ⟨not_not.mpr hinit, forM_eq_ok.mpr ?_⟩
    intro cycle hcycle
    obtain ⟨hc, hf⟩ := (hmem cycle).mp hcycle
    exact (validateCycleSequence_eq_ok hcycs).mpr (hsucc cycle hc hf)

theorem validateAttempt_eq_ok (hruns : flowRuns.rows.Perm history.flowRuns)
    (hcycs : cycles.rows.Perm history.cycles) :
    validateAttempt validated flowRuns cycles attempt = .ok () ↔
      AcceptedAttempt validated history attempt := by
  unfold validateAttempt
  simp only [bind_eq_ok, okOr_eq_ok, guard_eq_ok, find?_eq_some_of_perm hruns,
    find?_eq_some_of_perm hcycs, Option.bind_eq_some_iff, ne_eq, not_or, not_not]
  constructor
  · rintro ⟨flowRun, ⟨hrun, hrunId⟩, cycle, ⟨hcycle, hcycleId⟩, node, ⟨definition, hdef, hnode⟩,
      ⟨hfact, hflow⟩, ⟨hkind, hbud⟩, hexec, hwin⟩
    exact ⟨⟨flowRun, hrun, cycle, hcycle, definition, node, hrunId, hcycleId, hdef, hnode,
      hfact, hflow, hkind, hbud⟩, hexec, hwin⟩
  · rintro ⟨⟨flowRun, hrun, cycle, hcycle, definition, node, hrunId, hcycleId, hdef, hnode,
      hfact, hflow, hkind, hbud⟩, hexec, hwin⟩
    exact ⟨flowRun, ⟨hrun, hrunId⟩, cycle, ⟨hcycle, hcycleId⟩, node, ⟨definition, hdef, hnode⟩,
      ⟨hfact, hflow⟩, ⟨hkind, hbud⟩, hexec, hwin⟩

/-! ## Routes -/

theorem mem_runAttempts : attempt ∈ runAttempts history flow ↔
      attempt ∈ history.attempts ∧ attempt.flowRunId = flow := by
  unfold runAttempts
  rw [mem_insertionSort, mem_filter, decide_eq_true_eq]

theorem runAttempts_strict (h : isNumberedInSequence history flow = true) :
    (runAttempts history flow).Pairwise fun left right => left.number < right.number := by
  unfold isNumberedInSequence at h
  rw [decide_eq_true_eq] at h
  have hlt : ((runAttempts history flow).map (·.number.value)).Pairwise (· < ·) := by
    rw [h]
    exact pairwise_lt_range'
  exact (pairwise_map.mp hlt).imp fun hab => Sequence.lt_iff.mpr hab

/-- The attempts visited before one are those with smaller numbers. -/
theorem mem_before_iff {earlier : NodeAttempt}
    {before after : List NodeAttempt} (hnumd : isNumberedInSequence history flow = true)
    (heq : runAttempts history flow = before ++ attempt :: after) :
    earlier ∈ before ↔ earlier ∈ history.attempts ∧ earlier.flowRunId = flow ∧
      earlier.number < attempt.number := by
  have hstrict := runAttempts_strict hnumd
  rw [heq, pairwise_append, pairwise_cons] at hstrict
  obtain ⟨-, ⟨hafter, -⟩, hbef⟩ := hstrict
  constructor
  · intro hmem
    have hrun : earlier ∈ runAttempts history flow := by
      rw [heq]
      exact mem_append_left _ hmem
    obtain ⟨hin, hflow⟩ := mem_runAttempts.mp hrun
    exact ⟨hin, hflow, hbef earlier hmem attempt (mem_cons_self ..)⟩
  · rintro ⟨hin, hflow, hlt⟩
    have hrun := mem_runAttempts.mpr ⟨hin, hflow⟩
    rw [heq, mem_append, mem_cons] at hrun
    rcases hrun with hmem | rfl | hmem
    · exact hmem
    · exact absurd hlt (lt_irrefl _)
    · exact absurd (hlt.trans (hafter earlier hmem)) (lt_irrefl _)

section

variable (hatts : attempts.rows.Perm history.attempts)

include hatts

theorem find?_eq_attempt? (id : NodeAttemptId) : attempts.find? id = history.attempt? id := by
  have hnodup : (history.attempts.map NodeAttempt.id).Nodup :=
    (hatts.map _).nodup_iff.mp attempts.keys_nodup
  ext attempt
  rw [find?_eq_some_of_perm hatts, attempt?_eq_some hnodup]

theorem validateRetryDepth_eq_ok (maximum : Nat) (attempt : NodeAttempt) :
    validateRetryDepth attempts maximum attempt = .ok () ↔
      history.retriesWithin maximum attempt = true := by
  induction maximum generalizing attempt with
  | zero =>
    unfold validateRetryDepth FlowRuntimeHistory.retriesWithin
    cases attempt.retryOf <;> simp
  | succ maximum ih =>
    unfold validateRetryDepth FlowRuntimeHistory.retriesWithin
    cases attempt.retryOf with
    | none => simp
    | some parent =>
      simp only [find?_eq_attempt? hatts]
      cases history.attempt? parent with
      | none => simp
      | some previous => exact ih previous

theorem validateRetry_eq_ok {previousId : NodeAttemptId} :
    validateRetry definition attempts history attempt previousId = .ok () ↔
      AcceptedRetry definition history attempt previousId := by
  unfold validateRetry
  simp only [bind_eq_ok, okOr_eq_ok, guard_eq_ok, find?_eq_some_of_perm hatts,
    Option.filter_eq_some_iff, decide_eq_true_eq, ne_eq, not_or, not_not, not_lt,
    validateRetryDepth_eq_ok hatts]
  constructor
  · rintro ⟨previous, ⟨hmem, hid⟩, receipt, ⟨hfind, hreason⟩, rebound, hrebound,
      ⟨rfl, htime, honce⟩, node, hnode, hdepth⟩
    exact ⟨⟨previous, hmem, hid, hrebound⟩, ⟨receipt, hfind, hreason, htime⟩, honce,
      ⟨node, hnode, hdepth⟩⟩
  · rintro ⟨⟨previous, hmem, hid, hrebound⟩, ⟨receipt, hfind, hreason, htime⟩, honce,
      ⟨node, hnode, hdepth⟩⟩
    exact ⟨previous, ⟨hmem, hid⟩, receipt, ⟨hfind, hreason⟩, attempt, hrebound,
      ⟨rfl, htime, honce⟩, node, hnode, hdepth⟩

theorem traversalsThrough_eq (completion : NodeAttemptCompletion) (producer : NodeAttempt) :
    traversalsThrough history attempts completion producer =
      history.countThrough completion.flowRunId completion.nodeKey completion.outcome
        producer.number := by
  unfold traversalsThrough FlowRuntimeHistory.countThrough
  congr 1
  funext row
  have hthrough : isNumberedThrough attempts row.nodeAttemptId producer =
      (history.attempt? row.nodeAttemptId).any fun attempt => attempt.number ≤ producer.number := by
    unfold isNumberedThrough
    rw [find?_eq_attempt? hatts]
    cases history.attempt? row.nodeAttemptId <;> rfl
  rw [hthrough]

end

theorem mem_declaredSuccessorKeys {predecessor outcome : FactoryKey}
    {traversals : Nat} {key : FactoryKey} :
    key ∈ (FlowInterpreter.declaredSuccessorKeys definition predecessor outcome traversals).rows ↔
      ∃ transition ∈ definition.transitions, transition.startsCycle = false ∧
        transition.routes predecessor outcome = true ∧
        transition.selectedNode traversals = some key := by
  unfold FlowInterpreter.declaredSuccessorKeys
  rw [OrdSet.mem_ofList, mem_filterMap]
  simp only [mem_filter, Bool.and_eq_true, Bool.not_eq_true', and_assoc]

theorem isDeclaredSuccessor_iff (hatts : attempts.rows.Perm history.attempts)
    (hcycle : cycle.id = attempt.workflowCycleId)
    (hearl : ∀ other, other ∈ earlier ↔ other ∈ history.attempts ∧
      other.flowRunId = attempt.flowRunId ∧ other.number < attempt.number) :
    isDeclaredSuccessor definition attempts history cycle earlier attempt.nodeKey = true ↔
      DeclaredSuccessor definition history attempt := by
  unfold isDeclaredSuccessor DeclaredSuccessor
  simp only [any_eq_true, hearl, Bool.and_eq_true, decide_eq_true_eq, hcycle]
  constructor
  · rintro ⟨predecessor, ⟨hmem, hflow, hlt⟩, hsame, hroute⟩
    refine ⟨predecessor, hmem, hflow, hsame, hlt, ?_⟩
    split at hroute
    · cases hroute
    · rename_i completion hcomp
      rw [traversalsThrough_eq hatts, contains_iff_mem, mem_declaredSuccessorKeys]
        at hroute
      exact ⟨completion, hcomp, hroute⟩
  · rintro ⟨predecessor, hmem, hflow, hsame, hlt, completion, hcomp, hroute⟩
    refine ⟨predecessor, ⟨hmem, hflow, hlt⟩, hsame, ?_⟩
    rw [hcomp]
    simp only
    rw [traversalsThrough_eq hatts, contains_iff_mem, mem_declaredSuccessorKeys]
    exact hroute

theorem validateRoute_eq_ok (hcycs : cycles.rows.Perm history.cycles)
    (hatts : attempts.rows.Perm history.attempts)
    (hbound : ∃ cycle ∈ history.cycles, cycle.id = attempt.workflowCycleId)
    (hearl : ∀ other, other ∈ earlier ↔ other ∈ history.attempts ∧
      other.flowRunId = attempt.flowRunId ∧ other.number < attempt.number) :
    validateRoute validated definition cycles attempts history flowRun earlier attempt = .ok () ↔
      AcceptedRoute validated definition history flowRun attempt := by
  unfold validateRoute
  cases hretry : attempt.retryOf with
  | some previousId =>
    rw [validateRetry_eq_ok hatts]
    constructor
    · intro h
      refine ⟨?_, ?_, ?_⟩
      · intro id hid
        rw [hretry] at hid
        cases hid
        exact h
      · intro hnone
        rw [hretry] at hnone
        cases hnone
      · intro hnone
        rw [hretry] at hnone
        cases hnone
    · exact fun h => h.retry previousId hretry
  | none =>
    obtain ⟨cycle, hcycle, hid⟩ := hbound
    have hfind : cycles.find? attempt.workflowCycleId = some cycle :=
      (find?_eq_some_of_perm hcycs).mpr ⟨hcycle, hid⟩
    have hany : (earlier.any fun previous => previous.workflowCycleId = cycle.id) = true ↔
        ∃ other ∈ history.attempts, other.flowRunId = attempt.flowRunId ∧
          other.workflowCycleId = attempt.workflowCycleId ∧ other.number < attempt.number := by
      simp only [any_eq_true, hearl, decide_eq_true_eq, hid]
      constructor
      · rintro ⟨other, ⟨hmem, hflow, hlt⟩, hsame⟩
        exact ⟨other, hmem, hflow, hsame, hlt⟩
      · rintro ⟨other, hmem, hflow, hsame, hlt⟩
        exact ⟨other, ⟨hmem, hflow, hlt⟩, hsame⟩
    have hsame : ∀ other ∈ history.cycles, other.id = attempt.workflowCycleId → other = cycle := by
      intro other hother hotherId
      have := (find?_eq_some_of_perm hcycs).mpr ⟨hother, hotherId⟩
      rw [hfind] at this
      exact (Option.some.inj this).symm
    rw [hfind]
    simp only [okOr_some, bind, Except.bind]
    by_cases hfirst : (earlier.any fun previous => previous.workflowCycleId = cycle.id) = true
    · rw [if_neg (not_not.mpr hfirst), guard_eq_ok, not_not,
        isDeclaredSuccessor_iff hatts hid hearl]
      constructor
      · rintro ⟨hsucc, -⟩
        refine ⟨?_, ?_, fun _ _ => hsucc⟩
        · intro previousId hsome
          rw [hretry] at hsome
          cases hsome
        · intro _ hnone
          obtain ⟨other, hmem, hflow, hc, hlt⟩ := hany.mp hfirst
          exact absurd hlt (hnone other hmem hflow hc)
      · intro h
        exact ⟨h.successor hretry (hany.mp hfirst), rfl⟩
    · rw [if_pos hfirst]
      constructor
      · intro h
        obtain ⟨entry, hentry, h⟩ := bind_eq_ok.mp h
        obtain ⟨hkey, -⟩ := guard_eq_ok.mp h
        rw [not_not] at hkey
        refine ⟨?_, ?_, fun _ hsome => absurd (hany.mpr hsome) hfirst⟩
        · intro previousId hsome
          rw [hretry] at hsome
          cases hsome
        · intro _ _
          exact ⟨cycle, hcycle, hid, by rw [hkey]; exact hentry⟩
      · intro h
        obtain ⟨other, hother, hotherId, hentry⟩ := h.entry hretry (by
          intro other hmem hflow hc hlt
          exact hfirst (hany.mpr ⟨other, hmem, hflow, hc, hlt⟩))
        rw [hsame other hother hotherId] at hentry
        refine bind_eq_ok.mpr ⟨_, hentry, ?_⟩
        exact guard_eq_ok.mpr ⟨not_not.mpr rfl, rfl⟩

/-! ## Completions and stops -/

theorem validateCompletion_eq_ok (hruns : flowRuns.rows.Perm history.flowRuns)
    (hatts : attempts.rows.Perm history.attempts) {earlier : List NodeAttemptCompletion} :
    validateCompletion validated flowRuns attempts earlier completion = .ok () ↔
      (∀ row ∈ earlier, row.nodeAttemptId ≠ completion.nodeAttemptId) ∧
        AcceptedCompletion validated history completion := by
  unfold validateCompletion AcceptedCompletion
  simp only [bind_eq_ok, okOr_eq_ok, guard_eq_ok, find?_eq_some_of_perm hruns,
    find?_eq_some_of_perm hatts, Option.bind_eq_some_iff, any_eq_true,
    decide_eq_true_eq, ne_eq, not_or, not_not, not_exists, not_and, and_true]
  constructor
  · rintro ⟨attempt, ⟨hmem, hid⟩, definition, ⟨flowRun, ⟨hrun, hrunId⟩, hdef⟩, huniq, hflow,
      hcycle, hkey, howner, hfence, husage, hdecls⟩
    exact ⟨huniq, attempt, hmem, flowRun, hrun, definition, hid, hrunId, hdef, hflow, hcycle,
      hkey, howner, hfence, husage, hdecls⟩
  · rintro ⟨huniq, attempt, hmem, flowRun, hrun, definition, hid, hrunId, hdef, hflow, hcycle,
      hkey, howner, hfence, husage, hdecls⟩
    exact ⟨attempt, ⟨hmem, hid⟩, definition, ⟨flowRun, ⟨hrun, hrunId⟩, hdef⟩, huniq, hflow,
      hcycle, hkey, howner, hfence, husage, hdecls⟩

theorem validateStop_eq_ok (hatts : attempts.rows.Perm history.attempts)
    {earlier : List FlowNodeStop} {receipt : FlowNodeStop} :
    validateStop attempts history earlier receipt = .ok () ↔
      (∀ row ∈ earlier, row.nodeAttemptId ≠ receipt.nodeAttemptId) ∧
        AcceptedStop history receipt := by
  unfold validateStop AcceptedStop
  simp only [bind_eq_ok, okOr_eq_ok, guard_eq_ok, find?_eq_some_of_perm hatts,
    any_eq_true, decide_eq_true_eq, ne_eq, not_or, not_not, not_exists, not_and, not_lt,
    Bool.not_eq_true, and_true]
  constructor
  · rintro ⟨attempt, ⟨hmem, hid⟩, ⟨huniq, hopen⟩, _, hobserver, husage, hbytes⟩
    exact ⟨huniq, attempt, hmem, hid, hopen, hobserver, husage, hbytes⟩
  · rintro ⟨huniq, attempt, hmem, hid, hopen, hobserver, husage, hbytes⟩
    exact ⟨attempt, ⟨hmem, hid⟩, ⟨huniq, hopen⟩, (), hobserver, husage, hbytes⟩

/-- Visiting rows in order checks that they are distinct and each accepted. -/
theorem forEarlier_distinct {α κ : Type} [DecidableEq κ] {key : α → κ} {P : α → Prop}
    {check : List α → α → Except FactoryError Unit} {rows : List α}
    (hcheck : ∀ earlier row, check earlier row = .ok () ↔
      (∀ other ∈ earlier, key other ≠ key row) ∧ P row) :
    forEarlier check [] rows = .ok () ↔ (rows.map key).Nodup ∧ ∀ row ∈ rows, P row := by
  rw [forEarlier_eq_ok, nodup_map_iff_splits]
  simp only [nil_append, hcheck]
  constructor
  · intro h
    refine ⟨fun before row after heq => (h before row after heq).1, ?_⟩
    intro row hrow
    obtain ⟨before, after, heq⟩ := append_of_mem hrow
    exact (h before row after heq).2
  · rintro ⟨hdist, hall⟩ before row after heq
    refine ⟨hdist before row after heq, hall row ?_⟩
    rw [heq]
    simp

/-- A Flow Run is accepted when the route of each of its attempts is. -/
theorem validateRunAttempts_eq_ok (hcycs : cycles.rows.Perm history.cycles)
    (hatts : attempts.rows.Perm history.attempts)
    (hbound : ∀ attempt ∈ history.attempts, ∃ cycle ∈ history.cycles,
      cycle.id = attempt.workflowCycleId) (hnumd : ∀ attempt ∈ history.attempts,
      isNumberedInSequence history attempt.flowRunId = true) :
    validateRunAttempts validated cycles attempts history flowRun = .ok () ↔
      ∃ definition, validated.closure.definition flowRun.definition = some definition ∧
        ∀ attempt ∈ history.attempts, attempt.flowRunId = flowRun.id →
          AcceptedRoute validated definition history flowRun attempt := by
  unfold validateRunAttempts
  simp only [bind_eq_ok, okOr_eq_ok, forEarlier_eq_ok, nil_append]
  refine exists_congr fun definition => and_congr_right fun _ => ?_
  have hsplit : ∀ before attempt after,
      runAttempts history flowRun.id = before ++ attempt :: after →
        attempt ∈ history.attempts ∧ attempt.flowRunId = flowRun.id ∧
        ∀ other, other ∈ before ↔ other ∈ history.attempts ∧
          other.flowRunId = attempt.flowRunId ∧ other.number < attempt.number := by
    intro before attempt after heq
    obtain ⟨hmem, hflow⟩ := mem_runAttempts.mp (by rw [heq]; simp : attempt ∈ runAttempts history _)
    refine ⟨hmem, hflow, ?_⟩
    intro other
    rw [hflow]
    have hseq := hnumd attempt hmem
    rw [hflow] at hseq
    exact mem_before_iff hseq heq
  constructor
  · intro h attempt hmem hflow
    obtain ⟨before, after, heq⟩ := append_of_mem (mem_runAttempts.mpr ⟨hmem, hflow⟩)
    exact (validateRoute_eq_ok hcycs hatts (hbound attempt hmem)
      (hsplit before attempt after heq).2.2).mp (h before attempt after heq)
  · intro h before attempt after heq
    obtain ⟨hmem, hflow, hearl⟩ := hsplit before attempt after heq
    exact (validateRoute_eq_ok hcycs hatts (hbound attempt hmem) hearl).mpr
      (h attempt hmem hflow)

/-- Acceptance of all attempts, run by run. -/
theorem validateAttempts_eq_ok (hruns : flowRuns.rows.Perm history.flowRuns)
    (hcycs : cycles.rows.Perm history.cycles) (hatts : attempts.rows.Perm history.attempts) :
    validateAttempts validated flowRuns cycles attempts history = .ok () ↔
      (∀ attempt ∈ history.attempts, AcceptedAttempt validated history attempt) ∧
      (∀ attempt ∈ history.attempts, isNumberedInSequence history attempt.flowRunId = true) ∧
      ∀ flowRun ∈ history.flowRuns, ∃ definition,
        validated.closure.definition flowRun.definition = some definition ∧
          ∀ attempt ∈ history.attempts, attempt.flowRunId = flowRun.id →
            AcceptedRoute validated definition history flowRun attempt := by
  unfold validateAttempts
  simp only [check_eq_ok, guard_eq_ok, forM_eq_ok, hatts.mem_iff, hruns.mem_iff,
    validateAttempt_eq_ok hruns hcycs, Bool.not_eq_true, any_eq_false,
    Bool.not_eq_true', Bool.not_eq_false]
  refine and_congr_right fun hbound => and_congr_right fun hnumd => ?_
  refine forall₂_congr fun flowRun _ => validateRunAttempts_eq_ok hcycs hatts ?_ hnumd
  intro attempt hmem
  obtain ⟨_, -, cycle, hcycle, _, _, -, hid, -⟩ := (hbound attempt hmem).bound
  exact ⟨cycle, hcycle, hid⟩

end Checks

/-- The validator accepts exactly the histories whose rows are accepted. -/
theorem validateFlowRuntimeHistory_eq_ok {checks : AdmissionChecks} :
    validateFlowRuntimeHistory checks admitted history = .ok () ↔
      ∃ validated, admitted.validated checks = .ok validated ∧
        Accepted admitted validated history := by
  unfold validateFlowRuntimeHistory
  rw [bind_eq_ok]
  refine exists_congr fun validated => and_congr_right fun _ => ?_
  constructor
  · intro h
    obtain ⟨flowRuns, hruns, h⟩ := bind_eq_ok.mp h
    obtain ⟨cycles, hcycs, h⟩ := bind_eq_ok.mp h
    obtain ⟨attempts, hatts, h⟩ := bind_eq_ok.mp h
    obtain ⟨hrunsNodup, hruns⟩ := uniqueBy_eq_ok hruns
    obtain ⟨hcyclesNodup, hcycs⟩ := uniqueBy_eq_ok hcycs
    obtain ⟨hattemptsNodup, hatts⟩ := uniqueBy_eq_ok hatts
    obtain ⟨hroot, h⟩ := guard_eq_ok.mp h
    rw [not_or, not_not, not_not, find?_eq_some_of_perm hruns, hruns.countP_eq] at hroot
    obtain ⟨_, hrun, h⟩ := bind_eq_ok.mp h
    obtain ⟨_, hcycle, h⟩ := bind_eq_ok.mp h
    obtain ⟨_, hatt, h⟩ := bind_eq_ok.mp h
    obtain ⟨_, hcomp, h⟩ := bind_eq_ok.mp h
    obtain ⟨_, hstop, h⟩ := bind_eq_ok.mp h
    obtain ⟨hwip, h⟩ := guard_eq_ok.mp h
    obtain ⟨usage, husage, hbuds⟩ := bind_eq_ok.mp h
    obtain ⟨hinit, hcycle⟩ := guard_eq_ok.mp hcycle
    rw [not_not, find?_eq_some_of_perm hcycs] at hinit
    obtain ⟨hbound, hnumd, hroute⟩ :=
      (validateAttempts_eq_ok hruns hcycs hatts).mp hatt
    obtain ⟨hcompd, hcomp⟩ :=
      (forEarlier_distinct fun _ _ => validateCompletion_eq_ok hruns hatts).mp hcomp
    obtain ⟨hstopped, hstop⟩ :=
      (forEarlier_distinct fun _ _ => validateStop_eq_ok hatts).mp hstop
    refine ⟨hrunsNodup, hcyclesNodup, hattemptsNodup, hroot.1.1, hroot.2, ?_, hinit.1, ?_,
      hbound, hnumd, ?_, hcompd, hcomp, hstopped, hstop, not_lt.mp hwip,
      ⟨usage, husage, hbuds⟩⟩
    · intro flowRun hmem
      exact (validateFlowRun_eq_ok hruns hatts).mp
        (forM_eq_ok.mp hrun flowRun (hruns.mem_iff.mpr hmem))
    · intro flowRun hmem
      exact (validateRunCycles_eq_ok hcycs).mp
        (forM_eq_ok.mp hcycle flowRun (hruns.mem_iff.mpr hmem))
    · intro flowRun hmem definition hdef
      obtain ⟨found, hfound, hall⟩ := hroute flowRun hmem
      rw [hdef] at hfound
      cases hfound
      exact hall
  · intro h
    obtain ⟨flowRuns, hruns⟩ := uniqueBy_isOk "Flow Run identity" h.runs
    obtain ⟨cycles, hcycs⟩ := uniqueBy_isOk "workflow cycle identity" h.cycles
    obtain ⟨attempts, hatts⟩ := uniqueBy_isOk "Node Attempt identity" h.attempts
    have hrunsPerm := (uniqueBy_eq_ok hruns).2
    have hcyclesPerm := (uniqueBy_eq_ok hcycs).2
    have hattemptsPerm := (uniqueBy_eq_ok hatts).2
    obtain ⟨usage, husage, hbuds⟩ := h.budgets
    refine bind_eq_ok.mpr ⟨flowRuns, hruns, bind_eq_ok.mpr ⟨cycles, hcycs, bind_eq_ok.mpr
      ⟨attempts, hatts, guard_eq_ok.mpr ⟨?_, bind_eq_ok.mpr ⟨(), ?_, bind_eq_ok.mpr
      ⟨(), ?_, bind_eq_ok.mpr ⟨(), ?_, bind_eq_ok.mpr ⟨(), ?_, bind_eq_ok.mpr ⟨(), ?_,
      guard_eq_ok.mpr ⟨not_lt.mpr h.wip, bind_eq_ok.mpr ⟨usage, husage, hbuds⟩⟩⟩⟩⟩⟩⟩⟩⟩⟩⟩
    · rw [not_or, not_not, not_not, find?_eq_some_of_perm hrunsPerm, hrunsPerm.countP_eq]
      exact ⟨⟨h.root, rfl⟩, h.rooted⟩
    · refine forM_eq_ok.mpr fun flowRun hmem => ?_
      exact (validateFlowRun_eq_ok hrunsPerm hattemptsPerm).mpr
        (h.run flowRun (hrunsPerm.mem_iff.mp hmem))
    · refine guard_eq_ok.mpr ⟨?_, forM_eq_ok.mpr fun flowRun hmem => ?_⟩
      · rw [not_not, find?_eq_some_of_perm hcyclesPerm]
        exact ⟨h.initial, rfl⟩
      · exact (validateRunCycles_eq_ok hcyclesPerm).mpr
          (h.cycle flowRun (hrunsPerm.mem_iff.mp hmem))
    · refine (validateAttempts_eq_ok hrunsPerm hcyclesPerm hattemptsPerm).mpr
        ⟨h.attempt, h.numbered, ?_⟩
      intro flowRun hmem
      obtain ⟨definition, hdef⟩ := (h.run flowRun hmem).definition
      exact ⟨definition, hdef, h.route flowRun hmem definition hdef⟩
    · exact (forEarlier_distinct fun _ _ => validateCompletion_eq_ok hrunsPerm hattemptsPerm).mpr
        ⟨h.completed, h.completion⟩
    · exact (forEarlier_distinct fun _ _ => validateStop_eq_ok hattemptsPerm).mpr
        ⟨h.stopped, h.stop⟩

end OctaCity.Factory.Flow
