/-
  OctaCity.Factory.Flow.Restored

  Which dispatches of a restored history the live interpreter would have offered.
  The validator accepts an attempt when any earlier completed attempt of the cycle
  routes to its node; `ready_nodes` also asks that the route is not consumed, that
  no restart is selected and that the measured usage is within the budgets.
-/
import OctaCity.Factory.Flow.Liveness
import OctaCity.Factory.Flow.CycleEntry

namespace OctaCity.Factory.Flow

open FlowInterpreter Lib List

/-! ## The rows before an attempt -/

namespace FlowRuntimeHistory

/-- Every attempt of another Flow Run, and the smaller numbers of this one. -/
def precedes (attempt row : NodeAttempt) : Bool :=
  row.flowRunId ≠ attempt.flowRunId ∨ row.number < attempt.number

def isOwnedBefore (history : FlowRuntimeHistory) (attempt : NodeAttempt) (id : NodeAttemptId) :
    Bool :=
  history.attempts.any fun row => row.id = id ∧ precedes attempt row

/-- The history restricted to the attempts that precede one, with their
    completions and stops. -/
def before (history : FlowRuntimeHistory) (attempt : NodeAttempt) : FlowRuntimeHistory :=
  { history with
    attempts := history.attempts.filter (precedes attempt)
    completions := history.completions.filter
      fun row => history.isOwnedBefore attempt row.nodeAttemptId
    stops := history.stops.filter fun row => history.isOwnedBefore attempt row.nodeAttemptId }

end FlowRuntimeHistory

open FlowRuntimeHistory
section Offered

variable {checks : AdmissionChecks} {admitted : AdmittedFlow}
  {validated : ValidatedFlowDefinitionClosure} {history : FlowRuntimeHistory} {flow : FlowRun}
  {cycle : WorkflowCycle} {definition : FlowDefinition} {attempt row : NodeAttempt}

/-- An earlier attempt of the same cycle. -/
def EarlierInCycle (history : FlowRuntimeHistory) (attempt row : NodeAttempt) : Prop :=
  row ∈ history.attempts ∧ row.flowRunId = attempt.flowRunId ∧
    row.workflowCycleId = attempt.workflowCycleId ∧ row.number < attempt.number

/-- An earlier attempt of the node is neither completed nor retried. -/
def StillPending (history : FlowRuntimeHistory) (attempt : NodeAttempt) : Prop :=
  ∃ row, EarlierInCycle history attempt row ∧ row.nodeKey = attempt.nodeKey ∧
    history.isCompleted row.id = false ∧
    ∀ next, EarlierInCycle history attempt next → next.retryOf ≠ some row.id

/-- Every restart edge selected earlier in the cycle is exhausted by the
    traversals below the attempt. -/
def NoRestartSelected (definition : FlowDefinition) (history : FlowRuntimeHistory)
    (attempt : NodeAttempt) : Prop :=
  ∀ row, EarlierInCycle history attempt row → ∀ completion,
    history.completion? row.id = some completion → ∀ edge ∈ definition.transitions,
      edge.startsCycle = true → edge.routes row.nodeKey completion.outcome = true →
        edge.maxRepeats < (history.before attempt).traversals attempt.flowRunId row.nodeKey
          completion.outcome

/-- An earlier result routes to the node at the traversals below the attempt,
    and no attempt of the node has consumed the route yet. -/
def UnconsumedRoute (definition : FlowDefinition) (history : FlowRuntimeHistory)
    (attempt : NodeAttempt) : Prop :=
  ∃ row, EarlierInCycle history attempt row ∧
    (∀ later, EarlierInCycle history attempt later → later.nodeKey = attempt.nodeKey →
      later.number ≤ row.number) ∧
    ∃ completion, history.completion? row.id = some completion ∧
      ∃ transition ∈ definition.transitions, transition.startsCycle = false ∧
        transition.routes row.nodeKey completion.outcome = true ∧
        transition.selectedNode ((history.before attempt).traversals attempt.flowRunId row.nodeKey
          completion.outcome) = some attempt.nodeKey

/-- The recorded source of the cycle precedes the attempt, and every restart
    edge selected before it in the predecessor is exhausted by then. -/
def RestartRecorded (definition : FlowDefinition) (history : FlowRuntimeHistory) (flow : FlowRun)
    (cycle : WorkflowCycle) (attempt : NodeAttempt) : Prop :=
  ∀ previous ∈ history.cycles, cycle.predecessor = some previous.id →
    ∃ source ∈ history.attempts, cycle.sourceAttemptId = some source.id ∧
      source.number < attempt.number ∧
      ∀ row ∈ history.attempts, row.flowRunId = flow.id → row.workflowCycleId = previous.id →
        row.number < source.number → ∀ completion,
        history.completion? row.id = some completion → ∀ edge ∈ definition.transitions,
          edge.startsCycle = true → edge.routes row.nodeKey completion.outcome = true →
            edge.maxRepeats < prefixTraversals (history.before attempt) flow previous row.nodeKey
              completion.outcome

/-- What the live interpreter asks of the rows before an attempt beyond the
    route the validator asks for. -/
def OfferedBefore (validated : ValidatedFlowDefinitionClosure) (definition : FlowDefinition)
    (history : FlowRuntimeHistory) (flow : FlowRun) (cycle : WorkflowCycle)
    (attempt : NodeAttempt) : Prop :=
  ((∀ row, ¬ EarlierInCycle history attempt row) →
    RestartRecorded definition history flow cycle attempt) ∧
  ((∃ row, EarlierInCycle history attempt row) →
    WithinLiveLimits validated definition flow.id (history.before attempt) ∧
    (StillPending history attempt ∨
      (NoRestartSelected definition history attempt ∧
        UnconsumedRoute definition history attempt)))

/-! ## Restricted rows -/

theorem mem_before_attempts : row ∈ (history.before attempt).attempts ↔
    row ∈ history.attempts ∧ precedes attempt row = true := by
  unfold before
  rw [mem_filter]

/-- Dropping rows by their key keeps the rows of every kept key. -/
theorem any_filter_key {α κ : Type} [DecidableEq κ] {key : α → κ} {keep : κ → Bool}
    {rows : List α} {k : κ} (hkeep : keep k = true) :
    ((rows.filter fun row => keep (key row)).any fun row => key row = k) =
      rows.any fun row => key row = k := by
  rw [any_filter]
  congr 1
  funext row
  by_cases heq : key row = k
  · simp [heq, hkeep]
  · simp [heq]

namespace Accepted

variable (h : Accepted admitted validated history)
include h

theorem isOwnedBefore_eq (hrow : row ∈ history.attempts) :
    history.isOwnedBefore attempt row.id = precedes attempt row := by
  unfold isOwnedBefore
  rw [Bool.eq_iff_iff, any_eq_true]
  constructor
  · rintro ⟨other, hother, hboth⟩
    rw [decide_eq_true_eq] at hboth
    rw [← h.attempt_unique hother hrow hboth.1]
    exact hboth.2
  · intro hprec
    exact ⟨row, hrow, by simpa using hprec⟩

theorem before_attempts_nodup : ((history.before attempt).attempts.map NodeAttempt.id).Nodup :=
  h.attempts.sublist (filter_sublist.map _)

theorem before_completions_nodup :
    ((history.before attempt).completions.map (·.nodeAttemptId)).Nodup :=
  h.completed.sublist (filter_sublist.map _)

section

variable (hrow : row ∈ history.attempts)
  (hprec : precedes attempt row = true)

include hrow hprec

/-- A retained attempt keeps its completion. -/
theorem before_completion? :
    (history.before attempt).completion? row.id = history.completion? row.id := by
  ext completion
  rw [completion?_eq_some h.before_completions_nodup, h.completion?_eq]
  unfold before
  rw [mem_filter]
  constructor
  · rintro ⟨⟨hmem, -⟩, hid⟩
    exact ⟨hmem, hid⟩
  · rintro ⟨hmem, hid⟩
    exact ⟨⟨hmem, by rw [hid, h.isOwnedBefore_eq hrow, hprec]⟩, hid⟩

theorem before_isCompleted :
    (history.before attempt).isCompleted row.id = history.isCompleted row.id :=
  any_filter_key (by rw [h.isOwnedBefore_eq hrow, hprec])

theorem before_isUnfinished :
    isUnfinished (history.before attempt) row = isUnfinished history row := by
  have hstopped : (history.before attempt).isStopped row.id = history.isStopped row.id :=
    any_filter_key
      (by rw [h.isOwnedBefore_eq hrow, hprec])
  unfold isUnfinished
  rw [h.before_isCompleted hrow hprec, hstopped]

theorem before_retainedOnce {completion : NodeAttemptCompletion}
    (hcomp : history.completion? row.id = some completion) :
    RetainedOnce (history.before attempt) completion := by
  obtain ⟨hmem, hid⟩ := h.completion?_eq.mp hcomp
  have hkept : completion ∈ (history.before attempt).completions :=
    mem_filter.mpr ⟨hmem, by rw [hid, h.isOwnedBefore_eq hrow, hprec]⟩
  refine ⟨?_, countP_key_eq_one h.before_completions_nodup hkept⟩
  rw [hid]
  exact countP_key_eq_one h.before_attempts_nodup (mem_before_attempts.mpr ⟨hrow, hprec⟩)

end

theorem before_numbers : ∀ left ∈ (history.before attempt).attempts,
    ∀ right ∈ (history.before attempt).attempts, left.flowRunId = right.flowRunId →
      left.number = right.number → left = right := by
  intro left hleft right hright
  exact h.number_unique (mem_before_attempts.mp hleft).1 (mem_before_attempts.mp hright).1

end Accepted

/-- Restricting the rows never raises a prefix count. -/
theorem prefixTraversals_before_le {previous : WorkflowCycle} {node outcome : FactoryKey} :
    prefixTraversals (history.before attempt) flow previous node outcome ≤
      prefixTraversals history flow previous node outcome := by
  have hsub : (history.before attempt).attempts ⊆ history.attempts := filter_subset_self _
  have hcomps : (history.before attempt).completions.Sublist history.completions :=
    filter_sublist
  unfold prefixTraversals
  refine le_trans (countP_mono_left ?_) hcomps.countP_le
  intro completion _ hcnt
  simp only [decide_eq_true_eq, any_eq_true, belowCeiling] at hcnt ⊢
  obtain ⟨hflow, ⟨owner, howner, hid, last, hlast, hceiling⟩, hrest⟩ := hcnt
  exact ⟨hflow, ⟨owner, hsub howner, hid, last, hsub hlast, hceiling⟩, hrest⟩

/-! ## The rows of the cycle -/

/-- Where an attempt belongs. -/
structure Located (history : FlowRuntimeHistory) (flow : FlowRun) (cycle : WorkflowCycle)
    (attempt : NodeAttempt) : Prop where
  flow_mem : flow ∈ history.flowRuns
  flow_id : attempt.flowRunId = flow.id
  cycle_mem : cycle ∈ history.cycles
  cycle_id : attempt.workflowCycleId = cycle.id
  owner : cycle.flowRunId = flow.id

theorem EarlierInCycle.precedes (hrow : EarlierInCycle history attempt row) :
    FlowRuntimeHistory.precedes attempt row = true := by
  unfold FlowRuntimeHistory.precedes
  rw [decide_eq_true_eq]
  exact Or.inr hrow.2.2.2

theorem Located.mem_cycleAttempts_before (hloc : Located history flow cycle attempt) :
    row ∈ cycleAttempts (history.before attempt) flow cycle ↔
      EarlierInCycle history attempt row := by
  rw [mem_cycleAttempts, mem_before_attempts]
  unfold precedes EarlierInCycle
  rw [decide_eq_true_eq, hloc.flow_id, hloc.cycle_id]
  constructor
  · rintro ⟨⟨hmem, hother | hlt⟩, hflow, hcycle⟩
    · exact absurd hflow hother
    · exact ⟨hmem, hflow, hcycle, hlt⟩
  · rintro ⟨hmem, hflow, hcycle, hlt⟩
    exact ⟨⟨hmem, Or.inr hlt⟩, hflow, hcycle⟩

section

variable (h : Accepted admitted validated history)

include h

theorem Located.pending_iff (hloc : Located history flow cycle attempt) :
    (∃ row, Pending (history.before attempt) flow cycle row ∧ row.nodeKey = attempt.nodeKey) ↔
      StillPending history attempt := by
  unfold StillPending Pending isPending
  refine exists_congr fun row => ?_
  rw [hloc.mem_cycleAttempts_before, Bool.and_eq_true, Bool.not_eq_true',
    Bool.not_eq_true', any_eq_false]
  constructor
  · rintro ⟨⟨hrow, hretr, hopen⟩, hkey⟩
    rw [h.before_isCompleted hrow.1 hrow.precedes] at hopen
    refine ⟨hrow, hkey, hopen, ?_⟩
    intro next hnext
    simpa using hretr next (hloc.mem_cycleAttempts_before.mpr hnext)
  · rintro ⟨hrow, hkey, hopen, hretr⟩
    refine ⟨⟨hrow, ?_, ?_⟩, hkey⟩
    · intro next hnext
      simpa using hretr next (hloc.mem_cycleAttempts_before.mp hnext)
    · rw [h.before_isCompleted hrow.1 hrow.precedes]
      exact hopen

theorem Located.noRestart_iff (hsound : SoundDefinition definition)
    (hloc : Located history flow cycle attempt) :
    (∀ row ∈ cycleAttempts (history.before attempt) flow cycle, ∀ key,
        ¬ Restarts definition (history.before attempt) flow.id row key) ↔
      NoRestartSelected definition history attempt := by
  unfold NoRestartSelected
  constructor
  · intro hnone row hrow completion hcomp edge hedge hstart hroute
    obtain ⟨-, ⟨key, htgt⟩, -⟩ := hsound.restart edge hedge hstart
    by_contra hcount
    apply hnone row (hloc.mem_cycleAttempts_before.mpr hrow) key
    rw [restarts_iff hsound, h.before_completion? hrow.1 hrow.precedes]
    rw [hloc.flow_id] at hcount
    exact ⟨completion, hcomp, edge, hedge, hstart, hroute, not_lt.mp hcount, htgt⟩
  · intro hnone row hrow key hrestart
    have hearl := hloc.mem_cycleAttempts_before.mp hrow
    rw [restarts_iff hsound, h.before_completion? hearl.1 hearl.precedes] at hrestart
    obtain ⟨completion, hcomp, edge, hedge, hstart, hroute, hcount, -⟩ := hrestart
    have hlt := hnone row hearl completion hcomp edge hedge hstart hroute
    rw [hloc.flow_id] at hlt
    omega

theorem Located.unconsumed_iff (hloc : Located history flow cycle attempt) :
    (∃ row ∈ cycleAttempts (history.before attempt) flow cycle,
        isConsumed (cycleAttempts (history.before attempt) flow cycle) row attempt.nodeKey =
          false ∧ Offers definition (history.before attempt) flow.id row attempt.nodeKey) ↔
      UnconsumedRoute definition history attempt := by
  unfold UnconsumedRoute isConsumed Offers Selects
  refine exists_congr fun row => ?_
  rw [hloc.mem_cycleAttempts_before, any_eq_false, hloc.flow_id]
  refine and_congr_right fun hrow => and_congr ?_ ?_
  · constructor
    · intro hfree later hlater hkey
      have := hfree later (hloc.mem_cycleAttempts_before.mpr hlater)
      simpa [hkey] using this
    · intro hfree later hlater
      have := hfree later (hloc.mem_cycleAttempts_before.mp hlater)
      simpa using this
  · rw [h.before_completion? hrow.1 hrow.precedes]
    constructor
    · rintro ⟨transition, hstart, hmem, completion, hcomp, hroute, hsel⟩
      exact ⟨completion, hcomp, transition, hmem, hstart, hroute, hsel⟩
    · rintro ⟨completion, hcomp, transition, hmem, hstart, hroute, hsel⟩
      exact ⟨transition, hstart, hmem, completion, hcomp, hroute, hsel⟩

end

/-! ## The comparison -/

theorem Accepted.find?_cycle (h : Accepted admitted validated history) {previous : WorkflowCycle}
    (hprev : previous ∈ history.cycles) :
    history.cycles.find? (·.id = previous.id) = some previous :=
  (find?_key_eq_some h.cycles).mpr ⟨hprev, rfl⟩

section

variable (h : Accepted admitted validated history) (hsound : SoundDefinition definition)
  (hloc : Located history flow cycle attempt)
  (hdef : validated.closure.definition flow.definition = some definition)

include h hsound hloc hdef

/-- The first attempt of a cycle is its entry also for the rows before it,
    unless the restart that started the cycle is not the recorded one there. -/
theorem Located.cycleEntry_before
    (hentry : FlowInterpreter.cycleEntry ⟨validated⟩ flow cycle history = .ok attempt.nodeKey) :
    FlowInterpreter.cycleEntry ⟨validated⟩ flow cycle (history.before attempt) =
        .ok attempt.nodeKey ↔ RestartRecorded definition history flow cycle attempt := by
  cases hpred : cycle.predecessor with
  | none =>
    rw [cycleEntry_initial_eq_ok hdef hpred] at hentry ⊢
    refine iff_of_true hentry ?_
    intro previous _ hsome
    rw [hpred] at hsome
    cases hsome
  | some predecessor =>
    obtain ⟨⟨previous, hprev, rfl, hpreviousFlow, -⟩, -, -⟩ :=
      (h.cycle flow hloc.flow_mem).successor cycle hloc.cycle_mem hloc.owner
        predecessor hpred
    have hfind := h.find?_cycle hprev
    have hnums : ∀ left ∈ history.attempts, ∀ right ∈ history.attempts,
        left.flowRunId = right.flowRunId → left.number = right.number → left = right :=
      fun left hleft right hright => h.number_unique hleft hright
    rw [cycleEntry_restart_eq_ok hsound hdef h.attempts hnums hpred hfind] at hentry
    rw [cycleEntry_restart_eq_ok hsound hdef h.before_attempts_nodup h.before_numbers
      hpred hfind]
    obtain ⟨howner, hfin, source, cause, hsrc, ⟨hsourceRow, hcause, -⟩, hnode⟩ := hentry
    have hkept : ∀ {other : NodeAttempt}, other ∈ history.attempts → other.flowRunId = flow.id →
        (precedes attempt other = true ↔ other.number < attempt.number) := by
      intro other hother hflow
      unfold precedes
      rw [decide_eq_true_eq, hloc.flow_id]
      exact ⟨fun h => h.resolve_left fun hne => hne hflow, Or.inr⟩
    constructor
    · rintro ⟨-, -, source', cause', hsrc', ⟨hrow', hcause', hleast'⟩, -⟩
      intro previous' hprev' hsome
      rw [hpred] at hsome
      have hsame := h.cycle_unique hprev' hprev (Option.some.inj hsome).symm
      subst hsame
      obtain ⟨hmem', hprec'⟩ := mem_before_attempts.mp hrow'.1
      have hlt' := (hkept hmem' hrow'.2.2).mp hprec'
      refine ⟨source', hmem', hsrc', hlt', ?_⟩
      intro other hother hflow hcycle hlower completion hcomp edge hedge hstart hroute
      have hprec := (hkept hother hflow).mpr (hlower.trans hlt')
      by_contra hcount
      obtain ⟨-, ⟨node, htgt⟩, -⟩ := hsound.restart edge hedge hstart
      -- An unexhausted edge would make the lower attempt the cause.
      have hlow := hleast' other (mem_before_attempts.mpr ⟨hother, hprec⟩) hcycle hflow
        ⟨other.number, other.id, node⟩ ⟨rfl, rfl, completion,
          by rw [h.before_completion? hother hprec, hcomp], edge, hedge, hstart, hroute,
          not_lt.mp hcount, htgt⟩
      exact absurd hlower (not_lt.mpr hlow)
    · intro hrecd
      obtain ⟨source', hmem', hsrc', hlt', hlower⟩ := hrecd previous hprev hpred
      have hsame : source' = source := by
        apply h.attempt_unique hmem' hsourceRow.1
        rw [hsrc] at hsrc'
        exact (Option.some.inj hsrc').symm
      subst hsame
      have hprec := (hkept hmem' hsourceRow.2.2).mpr hlt'
      obtain ⟨hnum, hid, completion, hcomp, edge, hedge, hstart, hroute, hcount,
        htgt⟩ := hcause
      refine ⟨howner, ?_, source', cause, hsrc, ⟨⟨mem_before_attempts.mpr ⟨hmem', hprec⟩,
        hsourceRow.2⟩, ⟨hnum, hid, completion, ?_, edge, hedge, hstart, hroute,
        prefixTraversals_before_le.trans hcount, htgt⟩, ?_⟩, hnode⟩
      · intro other hother hcycle
        obtain ⟨hin, hp⟩ := mem_before_attempts.mp hother
        rw [h.before_isUnfinished hin hp]
        exact hfin other hin hcycle
      · rw [h.before_completion? hmem' hprec, hcomp]
      · rintro other hother hcycle hflow otherCause
          ⟨-, -, completion', hcomp', edge', hedge', hstart', hroute', hcount', -⟩
        obtain ⟨hin, hp⟩ := mem_before_attempts.mp hother
        rw [h.before_completion? hin hp] at hcomp'
        by_contra hnot
        have := hlower other hin hflow hcycle (not_le.mp hnot) completion' hcomp' edge'
          hedge' hstart' hroute'
        omega

/-- A later attempt of a cycle is ready for the rows before it exactly when
    they are within the limits and its node is pending or freshly selected. -/
theorem Located.readyNodes_before (hsucc : DeclaredSuccessor definition history attempt) :
    (∃ ready, FlowInterpreter.readyNodes ⟨validated⟩ flow cycle (history.before attempt) =
        .ok ready ∧ attempt.nodeKey ∈ ready.rows) ↔
      WithinLiveLimits validated definition flow.id (history.before attempt) ∧
        (StillPending history attempt ∨ (NoRestartSelected definition history attempt ∧
            UnconsumedRoute definition history attempt)) := by
  obtain ⟨producer, hprodr, hflow, hcycle, hlt, completion, hcomp, -⟩ := hsucc
  have hearl : EarlierInCycle history attempt producer := ⟨hprodr, hflow, hcycle, hlt⟩
  have hmem := hloc.mem_cycleAttempts_before.mpr hearl
  have hne := ne_nil_of_mem hmem
  have hdirs : ∀ other ∈ cycleAttempts (history.before attempt) flow cycle,
      ((∃ directives, FlowInterpreter.attemptDirectives ⟨validated⟩ flow cycle
          (history.before attempt) other = .ok directives) ↔
        (((history.before attempt).completion? other.id).isSome = true →
          WithinLiveLimits validated definition flow.id (history.before attempt))) := by
    intro other hother
    have hrow := hloc.mem_cycleAttempts_before.mp hother
    refine attemptDirectives_isOk hsound hdef ?_
    intro found hfound
    rw [h.before_completion? hrow.1 hrow.precedes] at hfound
    exact ⟨h.boundCompletion hloc.flow_mem hloc.owner hdef hrow.1
      (by rw [hrow.2.1, hloc.flow_id]) (by rw [hrow.2.2.1, hloc.cycle_id]) hfound,
      h.before_retainedOnce hrow.1 hrow.precedes hfound⟩
  have hready : ∀ {progress ready}, FlowInterpreter.position ⟨validated⟩ flow cycle
      (history.before attempt) = .ok (progress, ready) → (attempt.nodeKey ∈ ready.rows ↔
        StillPending history attempt ∨ (NoRestartSelected definition history attempt ∧
          UnconsumedRoute definition history attempt)) := by
    intro progress ready hpos
    obtain ⟨hspec, -⟩ := PositionSpec.of_position hdef hne hpos
    rw [← hloc.pending_iff h, ← hloc.noRestart_iff h hsound, ← hloc.unconsumed_iff h]
    by_cases hrestart : ∀ other ∈ cycleAttempts (history.before attempt) flow cycle, ∀ key,
        ¬ Restarts definition (history.before attempt) flow.id other key
    · rw [hspec.ready_offer hrestart]
      exact or_congr_right ⟨fun hroute => ⟨hrestart, hroute⟩, fun hroute => hroute.2⟩
    · rw [hspec.ready_restart (by simpa using hrestart)]
      exact ⟨Or.inl, fun h => h.resolve_right fun hroute => hrestart hroute.1⟩
  constructor
  · rintro ⟨ready, hok, hkey⟩
    obtain ⟨progress, hpos⟩ := readyNodes_eq_ok.mp hok
    obtain ⟨-, hall⟩ := PositionSpec.of_position hdef hne hpos
    refine ⟨(hdirs producer hmem).mp (hall producer hmem) ?_, (hready hpos).mp hkey⟩
    rw [h.before_completion? hprodr hearl.precedes, hcomp]
    rfl
  · rintro ⟨hlimits, hcond⟩
    obtain ⟨progress, ready, hpos⟩ := FlowInterpreter.position_isOk hne
      fun other hother => (hdirs other hother).mpr fun _ => hlimits
    exact ⟨ready, readyNodes_eq_ok.mpr ⟨progress, hpos⟩, (hready hpos).mpr hcond⟩

end

/-- For every accepted history and every attempt that is not a retry, the
    node was offered by the live interpreter for the rows before the attempt
    exactly when these rows meet what the validator does not check. -/
theorem readyNodes_before_iff (hvalid : admitted.validated checks = .ok validated)
    (hacc : validateFlowRuntimeHistory checks admitted history = .ok ())
    (hatt : attempt ∈ history.attempts) (hretry : attempt.retryOf = none)
    (hloc : Located history flow cycle attempt)
    (hdef : validated.closure.definition flow.definition = some definition) :
    (∃ ready, FlowInterpreter.readyNodes ⟨validated⟩ flow cycle (history.before attempt) =
        .ok ready ∧ attempt.nodeKey ∈ ready.rows) ↔
      OfferedBefore validated definition history flow cycle attempt := by
  obtain ⟨validated', hvalid', h⟩ := validateFlowRuntimeHistory_eq_ok.mp hacc
  rw [hvalid] at hvalid'
  cases hvalid'
  have hsound := (AdmittedFlow.validated_eq_ok hvalid).1.sound hdef
  have hroute := h.route flow hloc.flow_mem definition hdef attempt hatt hloc.flow_id
  unfold OfferedBefore
  by_cases hfirst : ∃ row, EarlierInCycle history attempt row
  · have hsucc := hroute.successor hretry hfirst
    rw [hloc.readyNodes_before h hsound hdef hsucc]
    exact ⟨fun hcond => ⟨fun hnone => absurd hfirst (not_exists.mpr hnone),
      fun _ => hcond⟩, fun hcond => hcond.2 hfirst⟩
  · have hnone := not_exists.mp hfirst
    obtain ⟨cycle', hcycle', hid, hentry⟩ := hroute.entry hretry
      fun other hother hflow hcycle hlt => hnone other ⟨hother, hflow, hcycle, hlt⟩
    have hsame := h.cycle_unique hcycle' hloc.cycle_mem (by rw [hid, hloc.cycle_id])
    subst hsame
    have hempty : cycleAttempts (history.before attempt) flow cycle' = [] := by
      rw [eq_nil_iff_forall_not_mem]
      exact fun row hrow => hnone row (hloc.mem_cycleAttempts_before.mp hrow)
    have hready : (∃ ready, FlowInterpreter.readyNodes ⟨validated⟩ flow cycle'
          (history.before attempt) = .ok ready ∧ attempt.nodeKey ∈ ready.rows) ↔
        FlowInterpreter.cycleEntry ⟨validated⟩ flow cycle' (history.before attempt) =
          .ok attempt.nodeKey := by
      simp only [readyNodes_eq_ok, position_of_empty hempty, bind_eq_ok]
      constructor
      · rintro ⟨ready, ⟨progress, entry, hok, heq⟩, hkey⟩
        cases heq
        rw [OrdSet.mem_ofList, mem_singleton] at hkey
        rw [hkey]
        exact hok
      · intro hok
        exact ⟨_, ⟨_, _, hok, rfl⟩, OrdSet.mem_ofList.mpr (mem_singleton_self _)⟩
    rw [hready, hloc.cycleEntry_before h hsound hdef hentry]
    exact ⟨fun hrecd => ⟨fun _ => hrecd, fun hsome => absurd hsome hfirst⟩,
      fun hcond => hcond.1 hnone⟩

end Offered

/-! ## A branch recorded twice -/

namespace Diamond

def mergeAttempt : NodeAttempt := attemptRow (input "merge" .join 3)

def leftAgain : NodeAttempt := attemptRow (input "left" .join 3)

/-- `split` and `left` are completed, and `left` is recorded once more. -/
def doubled : FlowRuntimeHistory :=
  let history := (FlowInterpreter.run ⟨validated⟩ everyStep root (leftFirst.take 4)).getD
    (start root)
  { history with attempts := history.attempts ++ [leftAgain] }

end Diamond

/-- The join is offered by the rows before it. -/
theorem joined_branch_offered :
    OfferedBefore Diamond.validated Diamond.definition Diamond.history Diamond.root
      (WorkflowCycle.initial Diamond.root) Diamond.mergeAttempt := by
  have hacc : validateFlowRuntimeHistory Diamond.checks Diamond.admitted Diamond.history =
      .ok () := by decide +kernel
  have hatt : Diamond.mergeAttempt ∈ Diamond.history.attempts := by decide +kernel
  have hloc : Located Diamond.history Diamond.root (WorkflowCycle.initial Diamond.root)
      Diamond.mergeAttempt :=
    ⟨by decide, rfl, by decide, rfl, rfl⟩
  exact (readyNodes_before_iff Diamond.admitted_validated hacc hatt rfl hloc
    (by decide)).mp (readyNodes_contains (by decide))

/-- The second attempt of `left` is accepted although the interpreter offers
    only `merge` and `right` for the rows before it. -/
theorem repeated_branch_not_offered :
    validateFlowRuntimeHistory Diamond.checks Diamond.admitted Diamond.doubled = .ok () ∧
      Diamond.leftAgain ∈ Diamond.doubled.attempts ∧ Diamond.leftAgain.retryOf = none ∧
      (FlowInterpreter.readyNodes ⟨Diamond.validated⟩ Diamond.root
        (WorkflowCycle.initial Diamond.root) (Diamond.doubled.before Diamond.leftAgain)).map
          (·.rows) = .ok [⟨"merge"⟩, ⟨"right"⟩] ∧
      Diamond.leftAgain.nodeKey ∉ [(⟨"merge"⟩ : FactoryKey), ⟨"right"⟩] := by
  decide +kernel

end OctaCity.Factory.Flow
