/-
  OctaCity.Factory.Flow.RunRoutes

  How a driven run reached each of its attempts.  The interpreter selects a
  successor with the traversals of the whole Flow Run, the validator with the
  traversals up to the producing attempt.
-/
import OctaCity.Factory.Flow.Restarts
import Mathlib.Data.Finset.Max

namespace OctaCity.Factory.Flow

open FlowInterpreter Lib List
open FlowRuntimeHistory

section Routes

variable {interpreter : FlowInterpreter} {command : FlowCommand} {root : FlowRun} {history next : FlowRuntimeHistory}
  {flow : FlowRun} {cycle : WorkflowCycle} {definition : FlowDefinition}
  {attempt predecessor : NodeAttempt} {transition : FlowTransition}

/-! ## Traversals through an attempt -/

/-- The completion of an attempt, with the fields it takes from it. -/
structure CompletedBy (history : FlowRuntimeHistory) (attempt : NodeAttempt)
    (completion : NodeAttemptCompletion) : Prop where
  mem : completion ∈ history.completions
  id : completion.nodeAttemptId = attempt.id
  flow : completion.flowRunId = attempt.flowRunId
  key : completion.nodeKey = attempt.nodeKey

variable {completion : NodeAttemptCompletion}

theorem RunRows.completedBy (h : RunRows interpreter.validated root history)
    (hatt : attempt ∈ history.attempts)
    (hmem : completion ∈ history.completions) (hid : completion.nodeAttemptId = attempt.id) :
    CompletedBy history attempt completion := by
  obtain ⟨owner, howner, hownerId, hflow, hkey⟩ := h.completion_attempt hmem
  have hsame := h.attempt_unique howner hatt (by rw [hownerId, hid])
  subst hsame
  exact ⟨hmem, hid, hflow.symm, hkey.symm⟩

theorem CompletedBy.settled
    (h : CompletedBy history attempt completion) : Settled history attempt :=
  Or.inl ⟨completion, h.mem, h.id⟩

section

variable (h : RunRows interpreter.validated root history)

include h

theorem RunRows.countThrough_pred (hby : CompletedBy history attempt completion)
    (hatt : attempt ∈ history.attempts) {id : FlowRunId} {node outcome : FactoryKey}
    {number : NodeAttemptNumber} :
    (completion.flowRunId = id ∧ completion.nodeKey = node ∧ completion.outcome = outcome ∧
      ((history.attempt? completion.nodeAttemptId).any fun row => row.number ≤ number) = true) ↔
    attempt.flowRunId = id ∧ attempt.nodeKey = node ∧ completion.outcome = outcome ∧
      attempt.number ≤ number := by
  have hfind : history.attempt? completion.nodeAttemptId = some attempt :=
    (attempt?_eq_some h.attempts).mpr ⟨hatt, hby.id.symm⟩
  rw [hfind, hby.flow, hby.key]
  simp

/-- Traversals grow with the attempts that completed with the outcome. -/
theorem RunRows.countThrough_lt {left right : NodeAttempt}
    {leftResult rightResult : NodeAttemptCompletion} (hright : right ∈ history.attempts)
    (hrightBy : CompletedBy history right rightResult) (hflow : left.flowRunId = right.flowRunId)
    (hkey : left.nodeKey = right.nodeKey) (hout : leftResult.outcome = rightResult.outcome)
    (hlt : left.number < right.number) :
    history.countThrough left.flowRunId left.nodeKey leftResult.outcome left.number <
      history.countThrough right.flowRunId right.nodeKey rightResult.outcome right.number := by
  unfold countThrough
  refine countP_lt_of_imp ?_ ⟨rightResult, hrightBy.mem, ?_, ?_⟩
  · intro completion hcomp hcnt
    rw [decide_eq_true_eq] at hcnt ⊢
    obtain ⟨owner, howner, hid, -⟩ := h.completion_attempt hcomp
    have hby := h.completedBy howner hcomp hid.symm
    rw [h.countThrough_pred hby howner] at hcnt ⊢
    obtain ⟨hownerFlow, hownerKey, hownerOutcome, hle⟩ := hcnt
    exact ⟨by rw [hownerFlow, hflow], by rw [hownerKey, hkey], by rw [hownerOutcome, hout],
      hle.trans (le_of_lt hlt)⟩
  · rw [decide_eq_false_iff_not, h.countThrough_pred hrightBy hright]
    exact fun hcnt => absurd hcnt.2.2.2 (not_le.mpr hlt)
  · rw [decide_eq_true_eq, h.countThrough_pred hrightBy hright]
    exact ⟨rfl, rfl, rfl, le_refl _⟩

theorem RunRows.countThrough_pos (hatt : attempt ∈ history.attempts)
    (hby : CompletedBy history attempt completion) :
    0 < history.countThrough attempt.flowRunId attempt.nodeKey completion.outcome
      attempt.number := by
  unfold countThrough
  rw [countP_pos_iff]
  refine ⟨completion, hby.mem, ?_⟩
  rw [decide_eq_true_eq, h.countThrough_pred hby hatt]
  exact ⟨rfl, rfl, rfl, le_refl _⟩

end

/-- Steps keep the traversals through a settled attempt: attempts of its node
    with lower numbers are settled too. -/
theorem Step.countThrough_eq (hrows : RunRows interpreter.validated root history)
    (hrowsN : RunRows interpreter.validated root next) (horder : RunOrder history)
    (hstep : Step interpreter history command next) (hatt : attempt ∈ history.attempts)
    (hset : Settled history attempt) (outcome : FactoryKey) :
    next.countThrough attempt.flowRunId attempt.nodeKey outcome attempt.number =
      history.countThrough attempt.flowRunId attempt.nodeKey outcome attempt.number := by
  have hext := hstep.extends
  have hcongr : history.completions.countP (fun row =>
      row.flowRunId = attempt.flowRunId ∧ row.nodeKey = attempt.nodeKey ∧ row.outcome = outcome ∧
      (next.attempt? row.nodeAttemptId).any fun other => other.number ≤ attempt.number) =
      history.countThrough attempt.flowRunId attempt.nodeKey outcome attempt.number := by
    unfold countThrough
    apply countP_congr
    intro completion hcomp
    obtain ⟨owner, howner, hid, -⟩ := hrows.completion_attempt hcomp
    have hby := hrows.completedBy howner hcomp hid.symm
    have hbyNext := hrowsN.completedBy (hext.attempts howner) (hext.completions hcomp)
      hid.symm
    rw [decide_eq_true_eq, decide_eq_true_eq, hrows.countThrough_pred hby howner,
      hrowsN.countThrough_pred hbyNext (hext.attempts howner)]
  rw [← hcongr]
  unfold countThrough
  rcases hstep.completions with heq | ⟨active, hopen, completion, heq, hid, hunfin⟩
  · rw [heq]
  · rw [heq, countP_append, countP_singleton, if_neg, Nat.add_zero]
    have hbyNext := hrowsN.completedBy (hext.attempts hopen)
      (show completion ∈ next.completions by rw [heq]; simp) hid
    rw [decide_eq_true_eq, hrowsN.countThrough_pred hbyNext (hext.attempts hopen)]
    rintro ⟨hflow, hkey, -, hle⟩
    have hdone : Settled history active := by
      rcases lt_or_eq_of_le hle with hlt | hsame
      · exact horder.serial active hopen attempt hatt hflow hkey hlt
      · rw [hrows.number_unique hopen hatt hflow hsame]
        exact hset
    rw [hdone.not_unfinished hrows] at hunfin
    cases hunfin

/-! ## Entries and successors -/

/-- The attempt opens its cycle at the decided entry. -/
structure Enters (definition : FlowDefinition) (history : FlowRuntimeHistory) (flow : FlowRun)
    (attempt : NodeAttempt) : Prop where
  first : ∀ other ∈ history.attempts, other.flowRunId = attempt.flowRunId →
    other.workflowCycleId = attempt.workflowCycleId → attempt.number ≤ other.number
  entry : ∃ cycle ∈ history.cycles, cycle.id = attempt.workflowCycleId ∧
    cycle.flowRunId = flow.id ∧ EntryFixed definition history flow cycle attempt.nodeKey

/-- The attempt is the first of its node that follows the predecessor, whose
    result selects it through the transition. -/
structure Follows (definition : FlowDefinition) (history : FlowRuntimeHistory)
    (attempt predecessor : NodeAttempt) (completion : NodeAttemptCompletion)
    (transition : FlowTransition) : Prop where
  mem : predecessor ∈ history.attempts
  flow : predecessor.flowRunId = attempt.flowRunId
  cycle : predecessor.workflowCycleId = attempt.workflowCycleId
  earlier : predecessor.number < attempt.number
  completed : CompletedBy history predecessor completion
  declared : transition ∈ definition.transitions
  sameCycle : transition.startsCycle = false
  routes : transition.routes predecessor.nodeKey completion.outcome = true
  selects : transition.selectedNode (history.countThrough predecessor.flowRunId
    predecessor.nodeKey completion.outcome predecessor.number) = some attempt.nodeKey
  next : ∀ other ∈ history.attempts, other.flowRunId = attempt.flowRunId →
    other.nodeKey = attempt.nodeKey → predecessor.number < other.number →
      attempt.number ≤ other.number

/-- The attempt was reached as an entry or as a successor. -/
def Reached (definition : FlowDefinition) (history : FlowRuntimeHistory) (flow : FlowRun)
    (attempt : NodeAttempt) : Prop :=
  Enters definition history flow attempt ∨
    ∃ predecessor completion transition,
      Follows definition history attempt predecessor completion transition

/-- Entries of cycles are decided and attempts that repeat nothing are reached. -/
structure RunRoutes (validated : ValidatedFlowDefinitionClosure) (history : FlowRuntimeHistory) :
    Prop where
  entries : ∀ flow ∈ history.flowRuns, ∀ definition,
    validated.closure.definition flow.definition = some definition →
    ∀ cycle ∈ history.cycles, cycle.flowRunId = flow.id →
      ∃ key, EntryFixed definition history flow cycle key
  routes : ∀ flow ∈ history.flowRuns, ∀ definition,
    validated.closure.definition flow.definition = some definition →
    ∀ attempt ∈ history.attempts, attempt.flowRunId = flow.id → attempt.retryOf = none →
      Reached definition history flow attempt

section

variable (hrows : RunRows interpreter.validated root history)

include hrows

/-- A number given to an earlier attempt stays at or above it. -/
theorem Step.number_le (hstep : Step interpreter history command next)
    (hatt : attempt ∈ history.attempts) {P : NodeAttempt → Prop}
    (hold : ∀ other ∈ history.attempts, other.flowRunId = attempt.flowRunId → P other →
      attempt.number ≤ other.number) :
    ∀ other ∈ next.attempts, other.flowRunId = attempt.flowRunId → P other →
      attempt.number ≤ other.number := by
  intro other hother hflow hP
  rcases hstep.attempts with heq | ⟨added, heq, hnext⟩
  · rw [heq] at hother
    exact hold other hother hflow hP
  · rw [heq] at hother
    rcases mem_concat.mp hother with hother | rfl
    · exact hold other hother hflow hP
    · exact le_of_lt (hrows.number_lt_next hnext hatt hflow.symm)

section

variable (hrowsN : RunRows interpreter.validated root next) (horder : RunOrder history)

include hrowsN horder

theorem Enters.step (hsound : SoundDefinition definition) (hflow : flow ∈ history.flowRuns)
    (hdef : interpreter.validated.closure.definition flow.definition = some definition)
    (hatt : attempt ∈ history.attempts) (h : Enters definition history flow attempt)
    (hstep : Step interpreter history command next) : Enters definition next flow attempt := by
  obtain ⟨cycle, hcycle, hid, howner, hentry⟩ := h.entry
  refine ⟨?_, cycle, hstep.extends.cycles hcycle, hid, howner,
    hentry.step hrows hrowsN horder hsound hflow hdef hstep⟩
  exact hstep.number_le hrows hatt h.first

theorem Follows.step (hatt : attempt ∈ history.attempts)
    (h : Follows definition history attempt predecessor completion transition)
    (hstep : Step interpreter history command next) :
    Follows definition next attempt predecessor completion transition := by
  have hext := hstep.extends
  refine { h with
    mem := hext.attempts h.mem
    completed := { h.completed with mem := hext.completions h.completed.mem }
    selects := ?_
    next := ?_ }
  · rw [hstep.countThrough_eq hrows hrowsN horder h.mem h.completed.settled]
    exact h.selects
  · intro other hother hflow hkey hlt
    exact hstep.number_le hrows hatt
      (P := fun other => other.nodeKey = attempt.nodeKey ∧ predecessor.number < other.number)
      (fun other hother hflow hP => h.next other hother hflow hP.1 hP.2) other hother hflow
      ⟨hkey, hlt⟩

theorem Reached.step (hsound : SoundDefinition definition) (hflow : flow ∈ history.flowRuns)
    (hdef : interpreter.validated.closure.definition flow.definition = some definition)
    (hatt : attempt ∈ history.attempts) (h : Reached definition history flow attempt)
    (hstep : Step interpreter history command next) : Reached definition next flow attempt := by
  rcases h with henters | ⟨predecessor, completion, transition, hfol⟩
  · exact Or.inl (henters.step hrows hrowsN horder hsound hflow hdef hatt hstep)
  · exact Or.inr ⟨predecessor, completion, transition,
      hfol.step hrows hrowsN horder hatt hstep⟩

end

end

/-! ## Offered nodes -/

variable {ready : OrdSet FactoryKey} {key : FactoryKey} {producer : NodeAttempt}

/-- A ready node without a pending attempt is the entry of an empty cycle or
    is selected by a result of the cycle that no later attempt has consumed. -/
theorem readyNodes_idle
    (hdef : interpreter.validated.closure.definition flow.definition = some definition)
    (hready : interpreter.readyNodes flow cycle history = .ok ready) (hkey : key ∈ ready.rows)
    (hidle : hasPending history flow cycle key = false) : (cycleAttempts history flow cycle = [] ∧
      interpreter.cycleEntry flow cycle history = .ok key) ∨
    ∃ producer ∈ cycleAttempts history flow cycle,
      isConsumed (cycleAttempts history flow cycle) producer key = false ∧
      Offers definition history flow.id producer key := by
  obtain ⟨progress, hpos⟩ := readyNodes_eq_ok.mp hready
  have hnot : ¬ ∃ pending, Pending history flow cycle pending ∧ pending.nodeKey = key := by
    rintro ⟨pending, hpend, hpendingKey⟩
    exact hasPending_eq_false.mp hidle pending hpendingKey hpend
  by_cases hempty : cycleAttempts history flow cycle = []
  · rw [position_of_empty hempty] at hpos
    obtain ⟨entry, hentry, hpos⟩ := bind_eq_ok.mp hpos
    cases hpos
    rw [OrdSet.mem_ofList, mem_singleton] at hkey
    exact Or.inl ⟨hempty, by rw [hkey, hentry]⟩
  · obtain ⟨hspec, -⟩ := PositionSpec.of_position hdef hempty hpos
    by_cases hrest : ∃ producer ∈ cycleAttempts history flow cycle, ∃ target,
        Restarts definition history flow.id producer target
    · exact absurd ((hspec.ready_restart hrest key).mp hkey) hnot
    · have hnone : ∀ producer ∈ cycleAttempts history flow cycle, ∀ target,
          ¬ Restarts definition history flow.id producer target :=
        fun producer hprodr target htgt =>
          hrest ⟨producer, hprodr, target, htgt⟩
      exact Or.inr (((hspec.ready_offer hnone key).mp hkey).resolve_left hnot)

/-- The latest attempt of a node with an outcome counts every traversal. -/
theorem RunRows.latest_traversal (h : RunRows interpreter.validated root history)
    (hprodr : producer ∈ history.attempts) (hby : CompletedBy history producer completion) :
    ∃ latest ∈ history.attempts, ∃ result, CompletedBy history latest result ∧
      latest.flowRunId = producer.flowRunId ∧ latest.nodeKey = producer.nodeKey ∧
      result.outcome = completion.outcome ∧ producer.number ≤ latest.number ∧
      history.countThrough latest.flowRunId latest.nodeKey result.outcome latest.number =
        history.traversals producer.flowRunId producer.nodeKey completion.outcome := by
  classical
  let traversed : Finset NodeAttempt := history.attempts.toFinset.filter fun row =>
    row.flowRunId = producer.flowRunId ∧ row.nodeKey = producer.nodeKey ∧
      ∃ result, CompletedBy history row result ∧ result.outcome = completion.outcome
  have hin : ∀ {row}, row ∈ traversed ↔ row ∈ history.attempts ∧
      row.flowRunId = producer.flowRunId ∧ row.nodeKey = producer.nodeKey ∧
      ∃ result, CompletedBy history row result ∧ result.outcome = completion.outcome := by
    intro row
    rw [Finset.mem_filter, mem_toFinset]
  have hself : producer ∈ traversed := hin.mpr ⟨hprodr, rfl, rfl, completion, hby, rfl⟩
  obtain ⟨latest, hlate, hmax⟩ :=
    traversed.exists_max_image (fun row => row.number) ⟨producer, hself⟩
  obtain ⟨hmem, hflow, hkey, result, hres, hout⟩ := hin.mp hlate
  refine ⟨latest, hmem, result, hres, hflow, hkey, hout, hmax producer hself, ?_⟩
  unfold countThrough traversals
  apply countP_congr
  intro row hrow
  obtain ⟨owner, howner, hid, -⟩ := h.completion_attempt hrow
  have hownerBy := h.completedBy howner hrow hid.symm
  rw [decide_eq_true_eq, decide_eq_true_eq, h.countThrough_pred hownerBy howner, hownerBy.flow,
    hownerBy.key, hflow, hkey, hout]
  constructor
  · exact fun hcnt => ⟨hcnt.1, hcnt.2.1, hcnt.2.2.1⟩
  · rintro ⟨hownerFlow, hownerKey, hownerOutcome⟩
    exact ⟨hownerFlow, hownerKey, hownerOutcome,
      hmax owner (hin.mpr ⟨howner, hownerFlow, hownerKey, row, hownerBy, hownerOutcome⟩)⟩

theorem RunOrder.newest_of_le (hrows : RunRows interpreter.validated root history)
    (horder : RunOrder history) (hnewest : history.newestCycle? flow.id = some cycle)
    {earlier later : NodeAttempt} (hearl : earlier ∈ history.attempts)
    (hearlierCycle : earlier.workflowCycleId = cycle.id) (hlater : later ∈ history.attempts)
    (hflow : later.flowRunId = flow.id) (hsame : earlier.flowRunId = flow.id)
    (hle : earlier.number ≤ later.number) : later.workflowCycleId = cycle.id := by
  obtain ⟨hcycle, hcflow, hmax⟩ := newestCycle?_spec hnewest
  obtain ⟨own, hown, hownId, hownFlow⟩ := hrows.attempt_cycle hlater
  rcases lt_or_eq_of_le (hmax own hown (by rw [hownFlow, hflow])) with hlt | heq
  · have hbef := horder.ordered later hlater earlier hearl (by rw [hflow, hsame]) own hown
      cycle hcycle hownId hearlierCycle.symm hlt
    exact absurd hle (not_le.mpr hbef)
  · rw [← hrows.cycle_number_unique hown hcycle (by rw [hownFlow, hflow, hcflow]) heq, hownId]

/-! ## The invariant -/

section

variable (hrows : RunRows interpreter.validated root history)

include hrows

/-- The first attempt of a cycle enters at the cycle's entry. -/
theorem Enters.of_empty {entered : NodeAttempt} (hsound : SoundDefinition definition)
    (hdef : interpreter.validated.closure.definition flow.definition = some definition)
    (hcycle : cycle ∈ history.cycles) (howner : cycle.flowRunId = flow.id)
    (hfixed : EntryFixed definition history flow cycle key)
    (hempty : cycleAttempts history flow cycle = [])
    (hentry : interpreter.cycleEntry flow cycle history = .ok entered.nodeKey)
    (hflow : entered.flowRunId = flow.id) (hid : entered.workflowCycleId = cycle.id) :
    Enters definition history flow entered := by
  refine ⟨?_, cycle, hcycle, hid.symm, howner, ?_⟩
  · intro other hother hoflow hocyc
    have hin : other ∈ cycleAttempts history flow cycle :=
      mem_cycleAttempts.mpr ⟨hother, by rw [hoflow, hflow], by rw [hocyc, hid]⟩
    rw [hempty] at hin
    cases hin
  · have hdecd := hfixed.cycleEntry_eq hrows hsound hdef howner
    rw [hentry] at hdecd
    rw [Except.ok.inj hdecd]
    exact hfixed

/-- An attempt appended for an offered node follows the latest result with the
    producer's outcome. -/
theorem Follows.of_offer (horder : RunOrder history)
    (hnewest : history.newestCycle? flow.id = some cycle)
    (hstep : Step interpreter history command
      { history with attempts := history.attempts ++ [attempt] }) (hnext : history.IsNext attempt)
    (hflow : attempt.flowRunId = flow.id) (hcycle : attempt.workflowCycleId = cycle.id)
    (hprodr : producer ∈ cycleAttempts history flow cycle)
    (hunconsumed : isConsumed (cycleAttempts history flow cycle) producer attempt.nodeKey = false)
    (hoffers : Offers definition history flow.id producer attempt.nodeKey) :
    ∃ predecessor completion transition,
      Follows definition { history with attempts := history.attempts ++ [attempt] } attempt
        predecessor completion transition := by
  have hext := hstep.extends
  obtain ⟨hin, hproducerFlow, hproducerCycle⟩ := mem_cycleAttempts.mp hprodr
  obtain ⟨transition, hsame, hdecl, completion, hcomp, hroute, hsel⟩ := hoffers
  obtain ⟨hmem, hid⟩ := (completion?_eq_some hrows.completed).mp hcomp
  have hby := hrows.completedBy hin hmem hid
  -- The latest traversal of the same outcome selects the same node.
  obtain ⟨latest, hlate, result, hres, hlatestFlow, hlatestKey, hout, hle, hcount⟩ :=
    hrows.latest_traversal hin hby
  have hlatestRun : latest.flowRunId = flow.id := by rw [hlatestFlow, hproducerFlow]
  have hlatestCycle := horder.newest_of_le hrows hnewest hin hproducerCycle hlate hlatestRun
    hproducerFlow hle
  refine ⟨latest, result, transition, hext.attempts hlate, ?_, ?_, ?_, ?_, hdecl, hsame,
    ?_, ?_, ?_⟩
  · rw [hlatestRun, hflow]
  · rw [hlatestCycle, hcycle]
  · exact hrows.number_lt_next hnext hlate (by rw [hlatestRun, hflow])
  · exact ⟨hext.completions hres.mem, hres.id, hres.flow, hres.key⟩
  · rw [hlatestKey, hout]
    exact hroute
  · rw [hstep.countThrough_eq hrows (hrows.step hstep) horder hlate hres.settled, hcount,
      hproducerFlow]
    exact hsel
  · -- An attempt of the node after the latest result would have consumed the offer.
    intro other hother hoflow hotherKey hlt
    rcases mem_concat.mp hother with hother | rfl
    · have hotherRun : other.flowRunId = flow.id := by rw [hoflow, hflow]
      have hocyc := horder.newest_of_le hrows hnewest hin hproducerCycle hother hotherRun
        hproducerFlow (hle.trans (le_of_lt hlt))
      unfold isConsumed at hunconsumed
      rw [any_eq_false] at hunconsumed
      refine absurd ?_ (hunconsumed other (mem_cycleAttempts.mpr ⟨hother, hotherRun, hocyc⟩))
      rw [decide_eq_true_eq]
      exact ⟨hotherKey, lt_of_le_of_lt hle hlt⟩
    · exact le_refl _

/-- A dispatched attempt is entered as the routes before it prescribe. -/
theorem Reached.of_dispatch {input : NodeAttemptInput} (horder : RunOrder history)
    (hroutes : RunRoutes interpreter.validated history) (hsound : SoundDefinition definition)
    (hflow : flow ∈ history.flowRuns) (hnewest : history.newestCycle? flow.id = some cycle)
    (hdef : interpreter.validated.closure.definition flow.definition = some definition)
    (hready : interpreter.readyNodes flow cycle history = .ok ready)
    (hkey : attempt.nodeKey ∈ ready.rows)
    (hidle : hasPending history flow cycle attempt.nodeKey = false)
    (hnew : NodeAttempt.IsNew flow cycle definition input attempt)
    (hnext : history.IsNext attempt) :
    Reached definition { history with attempts := history.attempts ++ [attempt] } flow attempt := by
  have hstep := Step.dispatch hflow hnewest hdef hready hkey hidle hnew hnext
  obtain ⟨hcycle, howner, -⟩ := newestCycle?_spec hnewest
  rcases readyNodes_idle hdef hready hkey hidle with
    ⟨hempty, hentry⟩ | ⟨producer, hprodr, hunconsumed, hoffers⟩
  · obtain ⟨key, hfixed⟩ := hroutes.entries flow hflow definition hdef cycle hcycle howner
    have henters := Enters.of_empty hrows hsound hdef hcycle howner hfixed hempty hentry hnew.flow
      hnew.cycle
    refine Or.inl ⟨?_, ?_⟩
    · intro other hother hoflow hocyc
      rcases mem_concat.mp hother with hother | rfl
      · exact henters.first other hother hoflow hocyc
      · exact le_refl _
    · obtain ⟨own, hown, hid, hownFlow, hownFixed⟩ := henters.entry
      exact ⟨own, hstep.extends.cycles hown, hid, hownFlow,
        hownFixed.step hrows (hrows.step hstep) horder hsound hflow hdef hstep⟩
  · exact Or.inr (Follows.of_offer hrows horder hnewest hstep hnext hnew.flow hnew.cycle hprodr
      hunconsumed hoffers)

end

theorem RunRoutes.start : RunRoutes interpreter.validated (FlowRuntimeHistory.start root) := by
  unfold FlowRuntimeHistory.start
  constructor
  · intro flow _ definition _ cycle hcycle _
    rw [mem_singleton.mp hcycle]
    exact ⟨_, .initial rfl⟩
  · rintro flow _ definition _ attempt ⟨⟩

theorem RunRoutes.step (hclos : SoundClosure interpreter.validated)
    (hrows : RunRows interpreter.validated root history) (horder : RunOrder history)
    (h : RunRoutes interpreter.validated history) (hstep : Step interpreter history command next) :
    RunRoutes interpreter.validated next := by
  have hrowsN := hrows.step hstep
  have hext := hstep.extends
  -- Rows that were there keep their entries and routes.
  have hents : ∀ flow ∈ history.flowRuns, ∀ definition,
      interpreter.validated.closure.definition flow.definition = some definition →
      ∀ cycle ∈ history.cycles, cycle.flowRunId = flow.id →
        ∃ key, EntryFixed definition next flow cycle key := by
    intro flow hflow definition hdef cycle hcycle howner
    obtain ⟨key, hfixed⟩ := h.entries flow hflow definition hdef cycle hcycle howner
    exact ⟨key, hfixed.step hrows hrowsN horder (hclos.sound hdef) hflow hdef hstep⟩
  have hroutes : ∀ flow ∈ history.flowRuns, ∀ definition,
      interpreter.validated.closure.definition flow.definition = some definition →
      ∀ attempt ∈ history.attempts, attempt.flowRunId = flow.id → attempt.retryOf = none →
        Reached definition next flow attempt := by
    intro flow hflow definition hdef attempt hatt hown hfirst
    exact (h.routes flow hflow definition hdef attempt hatt hown hfirst).step hrows hrowsN
      horder (hclos.sound hdef) hflow hdef hatt hstep
  cases hstep with
  | @dispatch run cycle declared ready input added hrun hcycle hrunDef hready hkey hidle hnew
      hnext =>
    refine ⟨hents, ?_⟩
    intro flow hflow definition hdef attempt hatt hown hfirst
    rcases mem_concat.mp hatt with hatt | rfl
    · exact hroutes flow hflow definition hdef attempt hatt hown hfirst
    · have hsame := hrows.run_unique hrun hflow (by rw [← hnew.flow, hown])
      subst hsame
      rw [hdef] at hrunDef
      cases hrunDef
      exact Reached.of_dispatch hrows horder h (hclos.sound hdef) hrun hcycle hdef hready hkey
        hidle hnew hnext
  | retry _ _ _ _ _ _ _ _ _ _ _ hretr =>
    refine ⟨hents, ?_⟩
    intro flow hflow definition hdef attempt hatt hown hfirst
    rcases mem_concat.mp hatt with hatt | rfl
    · exact hroutes flow hflow definition hdef attempt hatt hown hfirst
    · rw [(NodeAttempt.withRetryOf_eq_ok hretr).1] at hfirst
      cases hfirst
  | complete => exact ⟨hents, hroutes⟩
  | stop => exact ⟨hents, hroutes⟩
  | @call parent run nested child hpar hrun howner hnested honce hfresh hfreshCycle =>
    refine ⟨?_, ?_⟩
    · intro flow hflow definition hdef cycle hcycle hown
      rcases mem_concat.mp hcycle with hcycle | rfl
      · rcases mem_concat.mp hflow with hflow | rfl
        · exact hents flow hflow definition hdef cycle hcycle hown
        · -- No cycle names a Flow Run that is only now created.
          obtain ⟨owner, howner, hid⟩ := hrows.cycle_flow hcycle
          exact absurd (hid.symm.trans hown) (hfresh owner howner)
      · exact ⟨_, .initial rfl⟩
    · intro flow hflow definition hdef attempt hatt hown hfirst
      rcases mem_concat.mp hflow with hflow | rfl
      · exact hroutes flow hflow definition hdef attempt hatt hown hfirst
      · obtain ⟨owner, howner, hid⟩ := hrows.attempt_flow hatt
        exact absurd (hid.trans hown) (hfresh owner howner)
  | @restart run cycle created node source id hrun hcycle hprog hsrc hcreat hfresh =>
    refine ⟨?_, hroutes⟩
    intro flow hflow definition hdef other hother hown
    rcases mem_concat.mp hother with hother | rfl
    · exact hents flow hflow definition hdef other hother hown
    · have hsame : run = flow := by
        refine hrows.run_unique hrun hflow ?_
        rw [← hown, (WorkflowCycle.restart_eq_ok hcreat).2.2.2.1, (newestCycle?_spec hcycle).2.1]
      subst hsame
      have hsound := hclos.sound hdef
      have hfixed := EntryFixed.of_restart hrows horder hsound hflow hdef hcycle hsrc hprog
        hcreat
      exact ⟨node, hfixed.step hrows hrowsN horder hsound hflow hdef
        (.restart hrun hcycle hprog hsrc hcreat hfresh)⟩

/-! ## Driven histories -/

/-- Everything a driven run keeps. -/
structure Driven (validated : ValidatedFlowDefinitionClosure) (root : FlowRun)
    (history : FlowRuntimeHistory) : Prop where
  rows : RunRows validated root history
  order : RunOrder history
  routes : RunRoutes validated history

theorem Driven.step (hclos : SoundClosure interpreter.validated)
    (h : Driven interpreter.validated root history) (hstep : Step interpreter history command next) :
    Driven interpreter.validated root next :=
  ⟨h.rows.step hstep, RunOrder.step h.rows h.order hstep,
    RunRoutes.step hclos h.rows h.order h.routes hstep⟩

theorem Driven.of_run {allowed : FlowRuntimeHistory → FlowCommand → FlowRuntimeHistory → Bool}
    {commands : List FlowCommand} (hclos : SoundClosure interpreter.validated)
    (hpar : root.parent = none) (hroot : root.definition = interpreter.validated.closure.root)
    (hrun : interpreter.run allowed root commands = some history) :
    Driven interpreter.validated root history := by
  have hdef := PinnedFlowDefinitionClosure.definition_of_mem interpreter.validated.closure.rooted
  rw [← hroot] at hdef
  refine run_induction ⟨RunRows.start hpar hdef, RunOrder.start, RunRoutes.start⟩ ?_ hrun
  intro current command next hcur _ hnext
  exact hcur.step hclos (step_cases hnext)

end Routes

end OctaCity.Factory.Flow
