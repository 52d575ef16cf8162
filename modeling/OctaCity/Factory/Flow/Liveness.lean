/-
  OctaCity.Factory.Flow.Liveness

  The interpreter never deadlocks.  On an accepted history without stops the
  newest cycle of every Flow Run has a position that is not `waiting`, and a
  terminal is reported only when nothing of the cycle is left to do.
-/
import OctaCity.Factory.Flow.Position

namespace OctaCity.Factory.Flow

open Lib FlowInterpreter

section Deadlock

variable {checks : AdmissionChecks} {admitted : AdmittedFlow}
  {validated : ValidatedFlowDefinitionClosure} {history : FlowRuntimeHistory} {flow : FlowRun}
  {cycle : WorkflowCycle} {definition : FlowDefinition}

variable {attempt : NodeAttempt}

namespace Accepted

variable (h : Accepted admitted validated history)
include h

/-- Without stops the accepted budgets are the live ones. -/
theorem withinLiveLimits (hclosure : validated.closure = admitted.closure)
    (hlimits : validated.limits = admitted.limits) (hstops : history.stops = [])
    (hflow : flow ∈ history.flowRuns)
    (hdef : validated.closure.definition flow.definition = some definition) :
    WithinLiveLimits validated definition flow.id history := by
  have hoverruns : history.stopOverrunsByFlow = .ok (Table.empty : UsageByFlow) := by
    unfold FlowRuntimeHistory.stopOverrunsByFlow
    rw [hstops]
    rfl
  obtain ⟨usage, husage, hbuds⟩ := h.budgets
  unfold validateFlowBudgets FlowRuntimeHistory.validateBudgetUsage at hbuds
  rw [hoverruns] at hbuds
  obtain ⟨aggregate, haggregate, hbuds⟩ := bind_eq_ok.mp hbuds
  obtain ⟨htotal, hruns⟩ := check_eq_ok.mp hbuds
  refine ⟨usage, husage, ?_, aggregate, haggregate, ?_⟩
  · have hrun := forM_eq_ok.mp hruns flow hflow
    rw [← hclosure, hdef] at hrun
    obtain ⟨found, hfound, hrun⟩ := bind_eq_ok.mp hrun
    cases hfound
    have hzero : UsageByFlow.get Table.empty flow.id = {} := rfl
    rw [hzero, BudgetUsage.checkedSub_default] at hrun
    exact hrun
  · have hzero : sumUsage ((Table.empty : UsageByFlow).rows.map (·.2)) = .ok {} := rfl
    rw [hlimits]
    obtain ⟨overruns, heq, htotal⟩ := bind_eq_ok.mp htotal
    cases heq
    obtain ⟨overrun, hoverrun, htotal⟩ := bind_eq_ok.mp htotal
    rw [hzero] at hoverrun
    cases hoverrun
    rw [BudgetUsage.checkedSub_default] at htotal
    exact htotal

/-- Without stops there is nothing to retry. -/
theorem retryOf_eq_none (hstops : history.stops = [])
    (hatt : attempt ∈ history.attempts) : attempt.retryOf = none := by
  cases hretry : attempt.retryOf with
  | none => rfl
  | some previousId =>
    obtain ⟨run, hrun, _, -, found, _, hid, -, hfound, -⟩ := (h.attempt attempt hatt).bound
    obtain ⟨receipt, hrcpt, -⟩ :=
      ((h.route run hrun found hfound attempt hatt hid.symm).retry previousId hretry).failed
    rw [hstops] at hrcpt
    cases hrcpt

theorem cycleEntry_isOk (hflow : flow ∈ history.flowRuns) (hcycle : cycle ∈ history.cycles)
    (howner : cycle.flowRunId = flow.id) :
    ∃ entry, FlowInterpreter.cycleEntry ⟨validated⟩ flow cycle history = .ok entry := by
  cases hpred : cycle.predecessor with
  | some predecessor =>
    exact ((h.cycle flow hflow).successor cycle hcycle howner predecessor hpred).2.2
  | none =>
    obtain ⟨found, hfound⟩ := (h.run flow hflow).definition
    refine ⟨found.entry, ?_⟩
    unfold FlowInterpreter.cycleEntry
    rw [if_neg (not_not.mpr howner), hpred]
    exact bind_eq_ok.mpr ⟨found, definition_eq_ok.mpr hfound, rfl⟩

theorem position_isOk (hsound : SoundDefinition definition) (hflow : flow ∈ history.flowRuns)
    (hcycle : cycle ∈ history.cycles) (howner : cycle.flowRunId = flow.id)
    (hdef : validated.closure.definition flow.definition = some definition)
    (hlimits : WithinLiveLimits validated definition flow.id history) :
    ∃ progress ready, FlowInterpreter.position ⟨validated⟩ flow cycle history =
      .ok (progress, ready) := by
  by_cases hempty : cycleAttempts history flow cycle = []
  · obtain ⟨entry, hentry⟩ := h.cycleEntry_isOk hflow hcycle howner
    exact ⟨_, _, by rw [position_of_empty hempty, hentry]; rfl⟩
  · refine FlowInterpreter.position_isOk hempty ?_
    intro attempt hatt
    obtain ⟨hmem, haflow, hattemptCycle⟩ := mem_cycleAttempts.mp hatt
    refine (attemptDirectives_isOk hsound hdef ?_).mpr fun _ => hlimits
    intro completion hcomp
    exact ⟨h.boundCompletion hflow howner hdef hmem haflow hattemptCycle hcomp,
      h.retainedOnce hmem hcomp⟩

theorem isCompleted_of_not_pending (hstops : history.stops = [])
    (hpend : ∀ attempt, ¬ Pending history flow cycle attempt)
    (hatt : attempt ∈ cycleAttempts history flow cycle) :
    history.isCompleted attempt.id = true := by
  by_contra hopen
  apply hpend attempt
  refine ⟨hatt, ?_⟩
  unfold isPending
  rw [Bool.and_eq_true, Bool.not_eq_true', Bool.not_eq_true', List.any_eq_false]
  refine ⟨?_, by simpa using hopen⟩
  intro next hnext
  rw [h.retryOf_eq_none hstops (mem_cycleAttempts.mp hnext).1]
  simp

theorem completion_of_isCompleted {id : NodeAttemptId} (hcompd : history.isCompleted id = true) :
    ∃ completion, history.completion? id = some completion := by
  unfold FlowRuntimeHistory.isCompleted at hcompd
  obtain ⟨completion, hmem, hid⟩ := List.any_eq_true.mp hcompd
  exact ⟨completion, h.completion?_eq.mpr ⟨hmem, by simpa using hid⟩⟩

end Accepted

/-- A non-empty cycle has an attempt with the greatest number. -/
theorem exists_last_attempt (hne : cycleAttempts history flow cycle ≠ []) :
    ∃ last ∈ cycleAttempts history flow cycle,
      ∀ other ∈ cycleAttempts history flow cycle, other.number ≤ last.number :=
  ⟨(cycleAttempts history flow cycle).getLast hne, List.getLast_mem hne, fun _ hother =>
    cycleAttempts_sorted.rel_getLast_of_rel_getLast_getLast hother (le_refl _)⟩

section

variable {progress : FlowProgress} {ready : OrdSet FactoryKey}
  (hspec : PositionSpec definition history flow cycle progress ready)

include hspec

/-- The last completed attempt of a cycle is not consumed, so its result is
    ready, restarts the cycle or ends it. -/
theorem FlowInterpreter.PositionSpec.not_waiting (hne : cycleAttempts history flow cycle ≠ [])
    (hleaves : ∀ attempt ∈ cycleAttempts history flow cycle,
      (∀ other, ¬ Pending history flow cycle other) →
        ∃ transition selected, Selects definition history flow.id attempt transition selected) :
    progress ≠ .waiting := by
  intro hwaiting
  obtain ⟨hpend, hrest, hready, hends⟩ := hspec.waiting hwaiting
  obtain ⟨last, hlast, hmax⟩ := exists_last_attempt hne
  obtain ⟨transition, selected, hsels⟩ := hleaves last hlast hpend
  cases selected with
  | none => exact hends last hlast ⟨transition, hsels⟩
  | some key =>
    cases hstart : transition.startsCycle with
    | true => exact hrest last hlast key ⟨transition, hstart, hsels⟩
    | false =>
      have hfree : isConsumed (cycleAttempts history flow cycle) last key = false := by
        unfold isConsumed
        rw [List.any_eq_false]
        intro successor hsucc hlater
        rw [decide_eq_true_eq] at hlater
        exact absurd hlater.2 (not_lt.mpr (hmax successor hsucc))
      have hmem : key ∈ ready.rows := (hspec.ready_offer hrest key).mpr
        (Or.inr ⟨last, hlast, hfree, transition, hstart, hsels⟩)
      rw [hready] at hmem
      cases hmem

/-- At a terminal every selected node of the cycle has a later attempt. -/
theorem FlowInterpreter.PositionSpec.consumed_at_terminal {terminal : FactoryKey}
    {source : NodeAttemptId} (hterm : progress = .terminal terminal source)
    (hatt : attempt ∈ cycleAttempts history flow cycle) {transition : FlowTransition}
    {key : FactoryKey}
    (hsels : Selects definition history flow.id attempt transition (some key)) :
    ∃ later ∈ cycleAttempts history flow cycle,
      later.nodeKey = key ∧ attempt.number < later.number := by
  obtain ⟨-, hrest, hready⟩ := hspec.terminal terminal source hterm
  have hstart : transition.startsCycle = false := by
    cases hstart : transition.startsCycle with
    | false => rfl
    | true => exact absurd ⟨transition, hstart, hsels⟩ (hrest attempt hatt key)
  cases hcons : isConsumed (cycleAttempts history flow cycle) attempt key with
  | true =>
    unfold isConsumed at hcons
    obtain ⟨later, hlater, hkey⟩ := List.any_eq_true.mp hcons
    exact ⟨later, hlater, by simpa using hkey⟩
  | false =>
    have hmem : key ∈ ready.rows := (hspec.ready_offer hrest key).mpr
      (Or.inr ⟨attempt, hatt, hcons, transition, hstart, hsels⟩)
    rw [hready] at hmem
    cases hmem

end

/-- On every accepted history without stops the newest cycle of each Flow Run has a
    position other than `waiting`: no stop has overrun its reservation, so the usage
    is within the budgets.  A terminal is reported only when every attempt of the cycle
    is completed and every node selected by one of them has a later attempt. -/
theorem progress_not_waiting (hvalid : admitted.validated checks = .ok validated)
    (hacc : validateFlowRuntimeHistory checks admitted history = .ok ())
    (hstops : history.stops = []) (hflow : flow ∈ history.flowRuns)
    (hnew : history.newestCycle? flow.id = some cycle) :
    ∃ progress, FlowInterpreter.progress ⟨validated⟩ flow cycle history = .ok progress ∧
      progress ≠ .waiting ∧ ∀ terminal source, progress = .terminal terminal source →
        (∀ attempt ∈ cycleAttempts history flow cycle, history.isCompleted attempt.id = true) ∧
        ∀ definition, validated.closure.definition flow.definition = some definition →
          ∀ attempt ∈ cycleAttempts history flow cycle, ∀ completion,
            history.completion? attempt.id = some completion →
            ∀ transition ∈ definition.transitions,
              transition.routes attempt.nodeKey completion.outcome = true →
              ∀ successor, transition.selectedNode (history.traversals flow.id attempt.nodeKey
                  completion.outcome) = some successor → ∃ later ∈ cycleAttempts history flow cycle,
                  later.nodeKey = successor ∧ attempt.number < later.number := by
  obtain ⟨validated', hvalid', h⟩ := validateFlowRuntimeHistory_eq_ok.mp hacc
  rw [hvalid] at hvalid'
  cases hvalid'
  obtain ⟨hsound, hclosure, hlimits, -⟩ := AdmittedFlow.validated_eq_ok hvalid
  obtain ⟨hcycle, howner, -⟩ := newestCycle?_spec hnew
  obtain ⟨definition, hdef⟩ := (h.run flow hflow).definition
  obtain ⟨progress, ready, hpos⟩ := h.position_isOk (hsound.sound hdef) hflow hcycle howner
    hdef (h.withinLiveLimits hclosure hlimits hstops hflow hdef)
  refine ⟨progress, progress_eq_ok.mpr ⟨ready, hpos⟩, ?_⟩
  by_cases hempty : cycleAttempts history flow cycle = []
  · obtain ⟨entry, hentry⟩ := h.cycleEntry_isOk hflow hcycle howner
    rw [position_of_empty hempty, hentry] at hpos
    cases hpos
    refine ⟨by simp, ?_⟩
    intro terminal source hterm
    cases hterm
  · obtain ⟨hspec, hdirs⟩ := PositionSpec.of_position hdef hempty hpos
    refine ⟨?_, ?_⟩
    · refine hspec.not_waiting hempty ?_
      intro attempt hatt hpend
      obtain ⟨completion, hcomp⟩ := h.completion_of_isCompleted
        (h.isCompleted_of_not_pending hstops hpend hatt)
      obtain ⟨directives, hok⟩ := hdirs attempt hatt
      exact (DirectivesSpec.of_attemptDirectives hdef hok).leaves completion hcomp
    · intro terminal source hterm
      refine ⟨fun attempt hatt => h.isCompleted_of_not_pending hstops
        (hspec.terminal terminal source hterm).1 hatt, ?_⟩
      intro definition' hdef' attempt hatt completion hcomp transition hmem hroute
        successor hsel
      rw [hdef] at hdef'
      cases hdef'
      exact hspec.consumed_at_terminal hterm hatt
        ⟨hmem, completion, hcomp, hroute, hsel⟩

end Deadlock

theorem diamond_not_waiting : ∃ progress, FlowInterpreter.progress ⟨Diamond.validated⟩ Diamond.root
        (WorkflowCycle.initial Diamond.root) Diamond.history = .ok progress ∧
      progress ≠ .waiting := by
  have hacc : validateFlowRuntimeHistory Diamond.checks Diamond.admitted Diamond.history =
      .ok () := by decide +kernel
  have hstops : Diamond.history.stops = [] := by decide +kernel
  have hflow : Diamond.root ∈ Diamond.history.flowRuns := by decide
  have hnew : Diamond.history.newestCycle? Diamond.root.id =
      some (WorkflowCycle.initial Diamond.root) := by decide
  obtain ⟨progress, hprog, hne, -⟩ :=
    progress_not_waiting Diamond.admitted_validated hacc hstops hflow hnew
  exact ⟨progress, hprog, hne⟩

end OctaCity.Factory.Flow
