/-
  OctaCity.Factory.Flow.RunOrder

  The order of a driven run.  A new cycle starts only when the newest one is
  settled, and a node is dispatched only when its earlier attempts are, so
  later cycles have later numbers and the attempts of one node of a Flow Run
  never overlap.
-/
import OctaCity.Factory.Flow.RunRows

namespace OctaCity.Factory.Flow

open FlowInterpreter Lib List

section Rows

variable {interpreter : FlowInterpreter} {command : FlowCommand} {validated : ValidatedFlowDefinitionClosure}
  {root : FlowRun} {history next : FlowRuntimeHistory}

variable {attempt : NodeAttempt} {cycle : WorkflowCycle} {flow : FlowRun}

namespace RunRows

variable (h : RunRows validated root history)
include h

variable {left right : NodeAttempt}

theorem attempt_unique (hleft : left ∈ history.attempts)
    (hright : right ∈ history.attempts) (hid : left.id = right.id) : left = right :=
  inj_on_of_nodup_map h.attempts hleft hright hid

theorem cycle_unique {left right : WorkflowCycle} (hleft : left ∈ history.cycles)
    (hright : right ∈ history.cycles) (hid : left.id = right.id) : left = right :=
  inj_on_of_nodup_map h.cycles hleft hright hid

theorem run_unique {left right : FlowRun} (hleft : left ∈ history.flowRuns)
    (hright : right ∈ history.flowRuns) (hid : left.id = right.id) : left = right :=
  inj_on_of_nodup_map h.runs hleft hright hid

/-! ## Numbers and cycles -/

theorem number_unique (hleft : left ∈ history.attempts)
    (hright : right ∈ history.attempts) (hflow : left.flowRunId = right.flowRunId)
    (hnum : left.number = right.number) : left = right := by
  have hnodup : ((history.attempts.filter fun attempt => attempt.flowRunId = right.flowRunId).map
      (·.number.value)).Nodup := by
    rw [h.numbers]
    exact nodup_range'
  refine inj_on_of_nodup_map hnodup ?_ ?_ (congrArg Sequence.value hnum)
  · exact mem_filter.mpr ⟨hleft, by simpa using hflow⟩
  · exact mem_filter.mpr ⟨hright, by simp⟩

theorem number_le (hatt : attempt ∈ history.attempts) :
    attempt.number.value ≤ history.attemptCount attempt.flowRunId := by
  have hmem : attempt.number.value ∈ (history.attempts.filter
      fun other => other.flowRunId = attempt.flowRunId).map (·.number.value) :=
    mem_map_of_mem (mem_filter.mpr ⟨hatt, by simp⟩)
  rw [h.numbers, mem_range'_1] at hmem
  omega

theorem number_lt_next {other : NodeAttempt} (hnext : history.IsNext attempt)
    (hother : other ∈ history.attempts) (hflow : other.flowRunId = attempt.flowRunId) :
    other.number < attempt.number := by
  have hle := h.number_le hother
  have hvalue := hnext.number
  rw [hflow] at hle
  rw [Sequence.lt_iff]
  omega

theorem cycle_flow (hcycle : cycle ∈ history.cycles) :
    ∃ flow ∈ history.flowRuns, cycle.flowRunId = flow.id := by
  induction hvalue : cycle.number.value using Nat.strong_induction_on generalizing cycle with
  | _ value ih =>
    cases hpred : cycle.predecessor with
    | none =>
      obtain ⟨flow, hflow, rfl⟩ := (h.cycle cycle hcycle).initial hpred
      exact ⟨flow, hflow, rfl⟩
    | some predecessor =>
      obtain ⟨previous, hprev, -, hsame, hnum, -⟩ :=
        (h.cycle cycle hcycle).successor predecessor hpred
      have hstep := Sequence.next?_eq_some hnum
      obtain ⟨flow, hflow, heq⟩ := ih previous.number.value (by omega) hprev rfl
      exact ⟨flow, hflow, by rw [← hsame, heq]⟩

theorem cycle_number_unique {left right : WorkflowCycle} (hleft : left ∈ history.cycles)
    (hright : right ∈ history.cycles) (hflow : left.flowRunId = right.flowRunId)
    (hnum : left.number = right.number) : left = right := by
  induction hvalue : left.number.value using Nat.strong_induction_on generalizing left right with
  | _ value ih =>
    have hinit : ∀ {cycle : WorkflowCycle}, cycle ∈ history.cycles →
        cycle.predecessor = none → cycle.number.value = 1 := by
      intro cycle hcycle hnone
      obtain ⟨flow, -, rfl⟩ := (h.cycle cycle hcycle).initial hnone
      rfl
    have hlater : ∀ {cycle : WorkflowCycle}, cycle ∈ history.cycles → ∀ predecessor,
        cycle.predecessor = some predecessor → ∃ previous ∈ history.cycles,
          previous.id = predecessor ∧ previous.flowRunId = cycle.flowRunId ∧
          cycle.number.value = previous.number.value + 1 := by
      intro cycle hcycle predecessor hsome
      obtain ⟨previous, hprev, hid, hsame, hnext, -⟩ :=
        (h.cycle cycle hcycle).successor predecessor hsome
      exact ⟨previous, hprev, hid, hsame, Sequence.next?_eq_some hnext⟩
    have hvals : left.number.value = right.number.value := congrArg Sequence.value hnum
    cases hleftOf : left.predecessor with
    | none =>
      have hone := hinit hleft hleftOf
      cases hrightOf : right.predecessor with
      | none =>
        obtain ⟨leftRun, hleftRun, rfl⟩ := (h.cycle left hleft).initial hleftOf
        obtain ⟨rightRun, hrightRun, rfl⟩ := (h.cycle right hright).initial hrightOf
        rw [h.run_unique hleftRun hrightRun hflow]
      | some predecessor =>
        obtain ⟨previous, -, -, -, hsucc⟩ := hlater hright predecessor hrightOf
        have := previous.number.positive
        omega
    | some predecessor =>
      obtain ⟨previous, hprev, hid, hsame, hsucc⟩ := hlater hleft predecessor hleftOf
      cases hrightOf : right.predecessor with
      | none =>
        have hone := hinit hright hrightOf
        have := previous.number.positive
        omega
      | some predecessor' =>
        obtain ⟨previous', hprev', hid', hsame', hsucc'⟩ := hlater hright predecessor' hrightOf
        -- The predecessors have equal numbers, so they are the same cycle.
        have heq : previous = previous' := by
          refine ih previous.number.value (by omega) hprev hprev' ?_ ?_ rfl
          · rw [hsame, hsame', hflow]
          · exact Sequence.eq_of_value (by omega)
        refine h.successors left hleft right hright predecessor hleftOf ?_
        rw [hrightOf, ← hid', ← heq, hid]

theorem attempt_cycle (hatt : attempt ∈ history.attempts) :
    ∃ cycle ∈ history.cycles, cycle.id = attempt.workflowCycleId ∧
      cycle.flowRunId = attempt.flowRunId := by
  obtain ⟨flow, -, cycle, hcycle, _, _, hflow, hid, -, -, -, howner, -⟩ :=
    (h.attempt attempt hatt).bound
  exact ⟨cycle, hcycle, hid, by rw [howner, hflow]⟩

theorem attempt_flow (hatt : attempt ∈ history.attempts) :
    ∃ flow ∈ history.flowRuns, flow.id = attempt.flowRunId := by
  obtain ⟨flow, hflow, _, -, _, _, hid, -⟩ := (h.attempt attempt hatt).bound
  exact ⟨flow, hflow, hid⟩

end RunRows

/-! ## Settled attempts -/

/-- The attempt has a result or was repeated. -/
def Settled (history : FlowRuntimeHistory) (attempt : NodeAttempt) : Prop :=
  (∃ completion ∈ history.completions, completion.nodeAttemptId = attempt.id) ∨
    ∃ retry ∈ history.attempts, retry.retryOf = some attempt.id

theorem Settled.mono (hext : Extends history next)
    (h : Settled history attempt) : Settled next attempt := by
  rcases h with ⟨completion, hmem, hid⟩ | ⟨retry, hmem, hof⟩
  · exact Or.inl ⟨completion, hext.completions hmem, hid⟩
  · exact Or.inr ⟨retry, hext.attempts hmem, hof⟩

section

variable (h : RunRows validated root history)

include h

/-- A repeated attempt was stopped. -/
theorem RunRows.stopped_of_retried {retry : NodeAttempt} (hretry : retry ∈ history.attempts)
    (hof : retry.retryOf = some attempt.id) :
    ∃ receipt ∈ history.stops, receipt.nodeAttemptId = attempt.id := by
  obtain ⟨receipt, hmem, hid, -⟩ := (h.retry retry hretry attempt.id hof).failed
  exact ⟨receipt, hmem, hid⟩

theorem Settled.not_unfinished (hset : Settled history attempt) :
    isUnfinished history attempt = false := by
  rw [← Bool.not_eq_true, isUnfinished_iff]
  rintro ⟨hcomps, hstops⟩
  rcases hset with ⟨completion, hmem, hid⟩ | ⟨retry, hmem, hof⟩
  · exact hcomps completion hmem hid
  · obtain ⟨receipt, hrcpt, hid⟩ := h.stopped_of_retried hmem hof
    exact hstops receipt hrcpt hid

/-- A stopped attempt that was not repeated is not settled. -/
theorem RunRows.not_settled_of_stopped
    (hstop : ∃ receipt ∈ history.stops, receipt.nodeAttemptId = attempt.id)
    (honce : ∀ row ∈ history.attempts, row.retryOf ≠ some attempt.id) :
    ¬ Settled history attempt := by
  obtain ⟨receipt, hrcpt, hid⟩ := hstop
  rintro (⟨completion, hmem, hcomp⟩ | ⟨retry, hmem, hof⟩)
  · exact h.exclusive completion hmem receipt hrcpt (by rw [hcomp, hid])
  · exact honce retry hmem hof

end

theorem settled_of_not_pending (hatt : attempt ∈ cycleAttempts history flow cycle)
    (h : ¬ Pending history flow cycle attempt) : Settled history attempt := by
  by_contra hopen
  apply h
  refine ⟨hatt, ?_⟩
  unfold isPending FlowRuntimeHistory.isCompleted
  rw [Bool.and_eq_true, Bool.not_eq_true', Bool.not_eq_true', any_eq_false,
    any_eq_false]
  refine ⟨?_, ?_⟩
  · intro retry hretry hof
    exact hopen (Or.inr ⟨retry, (mem_cycleAttempts.mp hretry).1, by simpa using hof⟩)
  · intro completion hmem hid
    exact hopen (Or.inl ⟨completion, hmem, by simpa using hid⟩)

theorem hasPending_eq_false {key : FactoryKey} : hasPending history flow cycle key = false ↔
      ∀ attempt, attempt.nodeKey = key → ¬ Pending history flow cycle attempt := by
  unfold hasPending Pending
  rw [any_eq_false]
  constructor
  · rintro h attempt hkey ⟨hatt, hpend⟩
    exact h attempt hatt (by rw [hpend]; simpa using hkey)
  · intro h attempt hatt hboth
    rw [Bool.and_eq_true, decide_eq_true_eq] at hboth
    exact h attempt hboth.1 ⟨hatt, hboth.2⟩

/-! ## The invariant -/

/-- Later cycles have later attempts, superseded cycles are settled, and the
    attempts of one node follow each other. -/
structure RunOrder (history : FlowRuntimeHistory) : Prop where
  ordered : ∀ left ∈ history.attempts, ∀ right ∈ history.attempts,
    left.flowRunId = right.flowRunId → ∀ leftCycle ∈ history.cycles,
    ∀ rightCycle ∈ history.cycles, leftCycle.id = left.workflowCycleId →
    rightCycle.id = right.workflowCycleId → leftCycle.number < rightCycle.number →
      left.number < right.number
  superseded : ∀ attempt ∈ history.attempts, ∀ cycle ∈ history.cycles,
    cycle.id = attempt.workflowCycleId → ∀ later ∈ history.cycles,
    later.flowRunId = attempt.flowRunId → cycle.number < later.number →
      Settled history attempt
  serial : ∀ left ∈ history.attempts, ∀ right ∈ history.attempts,
    left.flowRunId = right.flowRunId → left.nodeKey = right.nodeKey →
    left.number < right.number → Settled history left

theorem RunOrder.start : RunOrder (FlowRuntimeHistory.start root) := by
  unfold FlowRuntimeHistory.start
  constructor
  · rintro left ⟨⟩
  · rintro attempt ⟨⟩
  · rintro left ⟨⟩

/-- Steps that add neither attempts nor cycles keep the order. -/
theorem RunOrder.mono (h : RunOrder history) (hext : Extends history next)
    (hatts : next.attempts = history.attempts) (hcycs : next.cycles = history.cycles) :
    RunOrder next := by
  constructor
  · rw [hatts, hcycs]
    exact h.ordered
  · rw [hatts, hcycs]
    exact fun attempt hatt cycle hcycle hid later hlater hflow hlt =>
      (h.superseded attempt hatt cycle hcycle hid later hlater hflow hlt).mono hext
  · rw [hatts]
    exact fun left hleft right hright hflow hkey hlt =>
      (h.serial left hleft right hright hflow hkey hlt).mono hext

/-- A new attempt keeps the order when its cycle is the newest of its Flow Run
    and the earlier attempts of its node are settled. -/
theorem RunOrder.withAttempt (hrows : RunRows validated root history) (h : RunOrder history)
    (hext : Extends history { history with attempts := history.attempts ++ [attempt] })
    (hnext : history.IsNext attempt)
    (hnewest : ∀ cycle ∈ history.cycles, cycle.id = attempt.workflowCycleId →
      ∀ other ∈ history.cycles, other.flowRunId = attempt.flowRunId →
        other.number ≤ cycle.number)
    (hserial : ∀ other ∈ history.attempts, other.flowRunId = attempt.flowRunId →
      other.nodeKey = attempt.nodeKey →
        Settled { history with attempts := history.attempts ++ [attempt] } other) :
    RunOrder { history with attempts := history.attempts ++ [attempt] } := by
  constructor
  · intro left hleft right hright hflow leftCycle hleftCycle rightCycle hrightCycle hleftId
      hrightId hlt
    rcases mem_concat.mp hleft with hleft | rfl <;>
      rcases mem_concat.mp hright with hright | rfl
    · exact h.ordered left hleft right hright hflow leftCycle hleftCycle rightCycle hrightCycle
        hleftId hrightId hlt
    · exact hrows.number_lt_next hnext hleft hflow
    · obtain ⟨cycle, hcycle, hid, howner⟩ := hrows.attempt_cycle hright
      have hsame := hrows.cycle_unique hcycle hrightCycle (by rw [hid, hrightId])
      subst hsame
      have hle := hnewest leftCycle hleftCycle hleftId cycle hcycle (by rw [howner, hflow])
      exact absurd hlt (not_lt.mpr hle)
    · have hsame := hrows.cycle_unique hleftCycle hrightCycle (by rw [hleftId, hrightId])
      rw [hsame] at hlt
      exact absurd hlt (lt_irrefl _)
  · intro other hother cycle hcycle hid later hlater hflow hlt
    rcases mem_concat.mp hother with hother | rfl
    · exact (h.superseded other hother cycle hcycle hid later hlater hflow hlt).mono hext
    · exact absurd hlt (not_lt.mpr (hnewest cycle hcycle hid later hlater hflow))
  · intro left hleft right hright hflow hkey hlt
    rcases mem_concat.mp hleft with hleft | rfl <;>
      rcases mem_concat.mp hright with hright | rfl
    · exact (h.serial left hleft right hright hflow hkey hlt).mono hext
    · exact hserial left hleft hflow hkey
    · exact absurd (hlt.trans (hrows.number_lt_next hnext hright hflow.symm)) (lt_irrefl _)
    · exact absurd hlt (lt_irrefl _)

/-- A new cycle keeps the order when the attempts it supersedes are settled. -/
theorem RunOrder.withCycle (hrows : RunRows validated root history) (h : RunOrder history)
    {flowRuns : List FlowRun} {created : WorkflowCycle}
    (hfresh : ∀ row ∈ history.cycles, row.id ≠ created.id)
    (hset : ∀ attempt ∈ history.attempts, attempt.flowRunId = created.flowRunId →
      Settled history attempt) :
    RunOrder { history with flowRuns, cycles := history.cycles ++ [created] } := by
  have hold : ∀ {attempt : NodeAttempt}, attempt ∈ history.attempts → ∀ cycle ∈
      history.cycles ++ [created], cycle.id = attempt.workflowCycleId → cycle ∈ history.cycles := by
    intro attempt hatt cycle hcycle hid
    rcases mem_concat.mp hcycle with hcycle | rfl
    · exact hcycle
    · obtain ⟨own, hown, hownId, -⟩ := hrows.attempt_cycle hatt
      exact absurd (hownId.trans hid.symm) (hfresh own hown)
  constructor
  · intro left hleft right hright hflow leftCycle hleftCycle rightCycle hrightCycle hleftId
      hrightId hlt
    exact h.ordered left hleft right hright hflow leftCycle
      (hold hleft leftCycle hleftCycle hleftId) rightCycle
      (hold hright rightCycle hrightCycle hrightId) hleftId hrightId hlt
  · intro attempt hatt cycle hcycle hid later hlater hflow hlt
    rcases mem_concat.mp hlater with hlater | rfl
    · exact h.superseded attempt hatt cycle (hold hatt cycle hcycle hid) hid later hlater
        hflow hlt
    · exact hset attempt hatt hflow.symm
  · exact h.serial

theorem RunOrder.settled_of_restart (hrows : RunRows interpreter.validated root history)
    (h : RunOrder history) {node : FactoryKey}
    {source : NodeAttemptId} (hflow : flow ∈ history.flowRuns)
    (hcycle : history.newestCycle? flow.id = some cycle)
    (hprog : interpreter.progress flow cycle history = .ok (.restartCycle node source))
    (hatt : attempt ∈ history.attempts)
    (howner : attempt.flowRunId = flow.id) : Settled history attempt := by
  obtain ⟨definition, hdef⟩ := (hrows.run flow hflow).definition
  obtain ⟨hpend, -⟩ := progress_restart_spec hdef hprog
  obtain ⟨hcycleMem, hcflow, hmax⟩ := newestCycle?_spec hcycle
  obtain ⟨own, hown, hownId, hownFlow⟩ := hrows.attempt_cycle hatt
  have hle := hmax own hown (by rw [hownFlow, howner])
  rcases lt_or_eq_of_le hle with hlt | heq
  · exact h.superseded attempt hatt own hown hownId cycle hcycleMem
      (by rw [hcflow, howner]) hlt
  · have hsame := hrows.cycle_number_unique hown hcycleMem
      (by rw [hownFlow, howner, hcflow]) heq
    subst hsame
    exact settled_of_not_pending (mem_cycleAttempts.mpr ⟨hatt, howner, hownId.symm⟩)
      (hpend attempt)

/-- Only attempts of the newest cycle are left to settle. -/
theorem RunOrder.cycle_newest_of_open (h : RunOrder history)
    (hatt : attempt ∈ history.attempts) (hopen : ¬ Settled history attempt) (hcycle : cycle ∈ history.cycles)
    (hid : cycle.id = attempt.workflowCycleId) :
    ∀ other ∈ history.cycles, other.flowRunId = attempt.flowRunId →
      other.number ≤ cycle.number := by
  intro other hother hflow
  by_contra hlt
  exact hopen (h.superseded attempt hatt cycle hcycle hid other hother hflow (not_le.mp hlt))

theorem RunOrder.step (hrows : RunRows interpreter.validated root history) (h : RunOrder history)
    (hstep : Step interpreter history command next) : RunOrder next := by
  have hext := hstep.extends
  cases hstep with
  | @dispatch flow cycle definition ready input attempt hflow hcycle hdef hready hkey hidle hnew
      hnext =>
    obtain ⟨hcycleMem, hcflow, hmax⟩ := newestCycle?_spec hcycle
    have hown : ∀ own ∈ history.cycles, own.id = attempt.workflowCycleId → own = cycle := by
      intro own hown hid
      exact hrows.cycle_unique hown hcycleMem (by rw [hid, hnew.cycle])
    refine RunOrder.withAttempt hrows h hext hnext ?_ ?_
    · intro own hownMem hid other hother hoflow
      rw [hown own hownMem hid]
      exact hmax other hother (by rw [hoflow, hnew.flow])
    · intro other hother hoflow hotherKey
      obtain ⟨own, hownMem, hid, hownFlow⟩ := hrows.attempt_cycle hother
      have howner : own.flowRunId = flow.id := by rw [hownFlow, hoflow, hnew.flow]
      refine Settled.mono hext ?_
      rcases lt_or_eq_of_le (hmax own hownMem howner) with hlt | heq
      · exact h.superseded other hother own hownMem hid cycle hcycleMem
          (by rw [hcflow, hoflow, hnew.flow]) hlt
      · have hsame := hrows.cycle_number_unique hownMem hcycleMem (by rw [howner, hcflow]) heq
        subst hsame
        have hin : other ∈ cycleAttempts history flow own :=
          mem_cycleAttempts.mpr ⟨hother, by rw [hoflow, hnew.flow], hid.symm⟩
        exact settled_of_not_pending hin (hasPending_eq_false.mp hidle other hotherKey)
  | complete => exact h.mono hext rfl rfl
  | stop => exact h.mono hext rfl rfl
  | @retry previous attempt retried flow cycle definition node receipt input hprev hflow howner
      hcycle hcycleId hdef hnode hrcpt hreason htime hnew hretr honce hnext hwith =>
    obtain ⟨rfl, hsameFlow, hsameCycle, hsameKey, -, -⟩ := NodeAttempt.withRetryOf_eq_ok hretr
    have hopen : ¬ Settled history previous :=
      hrows.not_settled_of_stopped ⟨receipt, mem_of_find?_eq_some hrcpt,
        by simpa using List.find?_some hrcpt⟩ honce
    refine RunOrder.withAttempt hrows h hext hnext ?_ ?_
    · intro own hown hid other hother hoflow
      refine h.cycle_newest_of_open hprev hopen hown ?_ other hother ?_
      · rw [hid]
        exact hsameCycle
      · rw [hoflow]
        exact hsameFlow
    · intro other hother hoflow hotherKey
      have hflowEq : other.flowRunId = previous.flowRunId := hoflow.trans hsameFlow
      have hkeyEq : other.nodeKey = previous.nodeKey := hotherKey.trans hsameKey
      rcases lt_trichotomy other.number previous.number with hlt | heq | hgt
      · exact (h.serial other hother previous hprev hflowEq hkeyEq hlt).mono hext
      · rw [hrows.number_unique hother hprev hflowEq heq]
        exact Or.inr ⟨_, mem_append_right _ (mem_singleton_self _), rfl⟩
      · exact absurd (h.serial previous hprev other hother hflowEq.symm hkeyEq.symm hgt) hopen
  | @call attempt flow nested child hatt hflow howner hnested honce hfresh hfreshCycle =>
    refine RunOrder.withCycle hrows h hfreshCycle ?_
    intro other hother hchild
    obtain ⟨run, hrun, hid⟩ := hrows.attempt_flow hother
    exact absurd (hid.trans hchild) (hfresh run hrun)
  | @restart flow cycle created node source id hflow hcycle hprog hsrc hnext hfresh =>
    refine RunOrder.withCycle hrows h hfresh ?_
    intro other hother hsame
    refine h.settled_of_restart hrows hflow hcycle hprog hother ?_
    rw [hsame, (WorkflowCycle.restart_eq_ok hnext).2.2.2.1, (newestCycle?_spec hcycle).2.1]

variable {allowed : FlowRuntimeHistory → FlowCommand → FlowRuntimeHistory → Bool}
  {commands : List FlowCommand}

/-- Every driven run keeps its rows and their order. -/
theorem RunRows.of_run (hpar : root.parent = none)
    (hdef : ∃ definition, interpreter.validated.closure.definition root.definition =
      some definition) (hrun : interpreter.run allowed root commands = some history) :
    RunRows interpreter.validated root history ∧ RunOrder history := by
  refine run_induction (P := fun history =>
    RunRows interpreter.validated root history ∧ RunOrder history)
    ⟨RunRows.start hpar hdef, RunOrder.start⟩ ?_ hrun
  rintro history command next ⟨hrows, horder⟩ - hnext
  have hstep := step_cases hnext
  exact ⟨hrows.step hstep, RunOrder.step hrows horder hstep⟩

/-- Runs of an admitted root definition. -/
theorem RunRows.of_root {run : FactoryRunId}
    (hrun : FlowInterpreter.run ⟨validated⟩ allowed (FlowRun.root run validated.closure.root)
      commands = some history) :
    RunRows validated (FlowRun.root run validated.closure.root) history ∧ RunOrder history := by
  have hdef := PinnedFlowDefinitionClosure.definition_of_mem validated.closure.rooted
  exact RunRows.of_run rfl hdef hrun

end Rows

end OctaCity.Factory.Flow
