/-
  OctaCity.Factory.Flow.CycleEntry

  The restart cause of a cycle.  `restartInCycle` folds over the attempts in
  row order; its result is the cause with the lowest attempt number, so it
  depends only on which attempts are causes.
-/
import OctaCity.Factory.Flow.Directives

namespace OctaCity.Factory.Flow.FlowInterpreter

open Lib List

variable {interpreter : FlowInterpreter} {flow : FlowRun} {cycle : WorkflowCycle}
  {history : FlowRuntimeHistory} {definition : FlowDefinition}

/-- The attempt's result selects a restart edge that is not exhausted within
    the execution prefix of its cycle. -/
def IsCause (definition : FlowDefinition) (flow : FlowRun) (cycle : WorkflowCycle)
    (history : FlowRuntimeHistory) (attempt : NodeAttempt) (cause : RestartCause) : Prop :=
  cause.number = attempt.number ∧ cause.source = attempt.id ∧ ∃ completion,
    history.completion? attempt.id = some completion ∧ ∃ edge ∈ definition.transitions,
      edge.startsCycle = true ∧ edge.routes attempt.nodeKey completion.outcome = true ∧
      prefixTraversals history flow cycle attempt.nodeKey completion.outcome ≤ edge.maxRepeats ∧
      edge.target = .node cause.node

theorem IsCause.unique (hsound : SoundDefinition definition) {attempt : NodeAttempt}
    {left right : RestartCause} (hleft : IsCause definition flow cycle history attempt left)
    (hright : IsCause definition flow cycle history attempt right) : left = right := by
  obtain ⟨hnum, hsrc, completion, hcomp, edge, hedge, hstarts, hroute, -, htgt⟩ :=
    hleft
  obtain ⟨hnum', hsrc', completion', hcomp', edge', hedge', -, hroute', -, htgt'⟩ :=
    hright
  rw [hcomp] at hcomp'
  cases hcomp'
  rw [hsound.restart_unique hedge hedge' hstarts hroute hroute', htgt] at htgt'
  cases left
  cases right
  simp_all

/-- A restart edge selects its target until it is exhausted, and never a gate. -/
theorem selectedNode_of_startsCycle (hsound : SoundDefinition definition)
    {edge : FlowTransition} (hedge : edge ∈ definition.transitions)
    (hstarts : edge.startsCycle = true) (traversals : Nat) (key : FactoryKey) :
    edge.selectedNode traversals = some key ↔
      traversals ≤ edge.maxRepeats ∧ edge.target = .node key := by
  obtain ⟨hpos, ⟨node, htgt⟩, -⟩ := hsound.restart edge hedge hstarts
  have hgate : edge.exhaustedNode = none := by
    cases hgate : edge.exhaustedNode with
    | none => rfl
    | some gate =>
      have := (hsound.gate edge hedge gate hgate).2.1
      rw [hstarts] at this
      cases this
  unfold FlowTransition.selectedNode FlowTransition.isExhausted
  by_cases hexh : edge.maxRepeats < traversals
  · rw [if_pos (by simpa using ⟨hpos, hexh⟩), hgate]
    simp only [reduceCtorEq, false_iff, not_and]
    intro hle
    omega
  · rw [if_neg (by simpa using fun _ => not_lt.mp hexh), htgt]
    simp only [FlowTransitionTarget.nodeKey?, Option.some.injEq, FlowTransitionTarget.node.injEq]
    exact ⟨fun h => ⟨not_lt.mp hexh, h⟩, fun h => h.2⟩

variable {key : FactoryKey}

theorem restarts_iff (hsound : SoundDefinition definition) {attempt : NodeAttempt} :
    Restarts definition history flow.id attempt key ↔ ∃ completion,
      history.completion? attempt.id = some completion ∧ ∃ edge ∈ definition.transitions,
        edge.startsCycle = true ∧ edge.routes attempt.nodeKey completion.outcome = true ∧
        history.traversals flow.id attempt.nodeKey completion.outcome ≤ edge.maxRepeats ∧
        edge.target = .node key := by
  constructor
  · rintro ⟨edge, hstarts, hedge, completion, hcomp, hroute, hsel⟩
    rw [selectedNode_of_startsCycle hsound hedge hstarts] at hsel
    exact ⟨completion, hcomp, edge, hedge, hstarts, hroute, hsel⟩
  · rintro ⟨completion, hcomp, edge, hedge, hstarts, hroute, hsel⟩
    refine ⟨edge, hstarts, hedge, completion, hcomp, hroute, ?_⟩
    rwa [selectedNode_of_startsCycle hsound hedge hstarts]

/-- The cause with the lower number; the first one wins among equals. -/
def earlierCause (selected : Option RestartCause) (cause : RestartCause) : RestartCause :=
  match selected with
  | none => cause
  | some kept => if cause.number < kept.number then cause else kept

theorem selectRestart_cases (hsound : SoundDefinition definition)
    (selected : Option RestartCause) (attempt : NodeAttempt) :
    (∃ cause, IsCause definition flow cycle history attempt cause ∧
      selectRestart definition flow cycle history selected attempt =
        .ok (some (earlierCause selected cause))) ∨
    ((∀ cause, ¬ IsCause definition flow cycle history attempt cause) ∧
      selectRestart definition flow cycle history selected attempt = .ok selected) := by
  unfold selectRestart
  cases hcomp : history.completion? attempt.id with
  | none =>
    refine Or.inr ⟨?_, rfl⟩
    rintro cause ⟨-, -, completion, hsome, -⟩
    rw [hcomp] at hsome
    cases hsome
  | some completion =>
    cases hedge : definition.transitions.find? fun edge =>
        edge.startsCycle && edge.routes attempt.nodeKey completion.outcome with
    | none =>
      refine Or.inr ⟨?_, by simp [hedge]⟩
      rintro cause ⟨-, -, other, hother, edge, hmem, hstarts, hroute, -⟩
      rw [hcomp] at hother
      cases hother
      have := List.find?_eq_none.mp hedge edge hmem
      rw [hstarts, hroute] at this
      exact this rfl
    | some edge =>
      have hmem := mem_of_find?_eq_some hedge
      have hfound := List.find?_some hedge
      rw [Bool.and_eq_true] at hfound
      obtain ⟨-, ⟨node, htgt⟩, -⟩ := hsound.restart edge hmem hfound.1
      simp only [hedge]
      by_cases hexh : edge.maxRepeats <
          prefixTraversals history flow cycle attempt.nodeKey completion.outcome
      · refine Or.inr ⟨?_, by rw [if_pos hexh]⟩
        rintro cause ⟨-, -, other, hother, edge', hmem', hstarts, hroute, hcount, -⟩
        rw [hcomp] at hother
        cases hother
        rw [hsound.restart_unique hmem hmem' hfound.1 hfound.2 hroute] at hcount
        omega
      · refine Or.inl ⟨⟨attempt.number, attempt.id, node⟩, ⟨rfl, rfl, completion, hcomp,
          edge, hmem, hfound.1, hfound.2, by omega, htgt⟩, ?_⟩
        rw [if_neg hexh, htgt]
        cases selected with
        | none => rfl
        | some kept =>
          simp only [earlierCause]
          split <;> rfl

/-- What the fold over some attempts has selected. -/
structure RestartSpec (definition : FlowDefinition) (flow : FlowRun) (cycle : WorkflowCycle)
    (history : FlowRuntimeHistory) (visited : List NodeAttempt)
    (start result : Option RestartCause) : Prop where
  origin : ∀ cause, result = some cause → start = some cause ∨
    ∃ attempt ∈ visited, IsCause definition flow cycle history attempt cause
  least_start : ∀ cause kept, result = some cause → start = some kept →
    cause.number ≤ kept.number
  least : ∀ cause, result = some cause → ∀ attempt ∈ visited, ∀ other,
    IsCause definition flow cycle history attempt other → cause.number ≤ attempt.number
  none : result = none ↔ start = none ∧
    ∀ attempt ∈ visited, ∀ cause, ¬ IsCause definition flow cycle history attempt cause

theorem RestartSpec.of_foldlM (hsound : SoundDefinition definition) (visited : List NodeAttempt)
    (start : Option RestartCause) :
    ∃ result, visited.foldlM (selectRestart definition flow cycle history) start = .ok result ∧
      RestartSpec definition flow cycle history visited start result := by
  induction visited generalizing start with
  | nil =>
    refine ⟨start, rfl, fun _ h => Or.inl h, ?_, ?_, ?_⟩
    · intro cause kept hcause hkept
      rw [hcause] at hkept
      cases hkept
      exact le_refl _
    · rintro cause - attempt ⟨⟩
    · simp
  | cons attempt rest ih =>
    rcases selectRestart_cases hsound start attempt with
      ⟨cause, hcause, hstep⟩ | ⟨hnone, hstep⟩
    · obtain ⟨result, hfold, hspec⟩ := ih (some (earlierCause start cause))
      have hearl : (earlierCause start cause).number ≤ cause.number ∧
          (∀ kept, start = some kept → (earlierCause start cause).number ≤ kept.number) ∧
          (start = some (earlierCause start cause) ∨ earlierCause start cause = cause) := by
        unfold earlierCause
        cases start with
        | none => simp
        | some kept =>
          simp only
          split
          · rename_i hlt
            refine ⟨le_refl _, ?_, Or.inr rfl⟩
            rintro kept' ⟨⟩
            exact le_of_lt hlt
          · rename_i hge
            refine ⟨not_lt.mp hge, ?_, Or.inl rfl⟩
            rintro kept' ⟨⟩
            exact le_refl _
      obtain ⟨hle, hleStart, horigin⟩ := hearl
      refine ⟨result, ?_, ?_, ?_, ?_, ?_⟩
      · rw [foldlM_cons, hstep]
        exact hfold
      · intro found hfound
        rcases hspec.origin found hfound with hkept | ⟨other, hother, hcauseOther⟩
        · cases hkept
          rcases horigin with hstart | hnew
          · exact Or.inl hstart
          · rw [hnew]
            exact Or.inr ⟨attempt, mem_cons_self .., hcause⟩
        · exact Or.inr ⟨other, mem_cons_of_mem _ hother, hcauseOther⟩
      · intro found kept hfound hkept
        exact (hspec.least_start found _ hfound rfl).trans (hleStart kept hkept)
      · intro found hfound other hother otherCause hocause
        rcases mem_cons.mp hother with rfl | hother
        · rw [← hcause.1]
          exact (hspec.least_start found _ hfound rfl).trans hle
        · exact hspec.least found hfound other hother otherCause hocause
      · rw [hspec.none]
        constructor
        · rintro ⟨hsome, -⟩
          cases hsome
        · rintro ⟨-, hall⟩
          exact absurd hcause (hall attempt (mem_cons_self ..) cause)
    · obtain ⟨result, hfold, hspec⟩ := ih start
      refine ⟨result, ?_, ?_, hspec.least_start, ?_, ?_⟩
      · rw [foldlM_cons, hstep]
        exact hfold
      · intro found hfound
        rcases hspec.origin found hfound with hkept | ⟨other, hother, hcauseOther⟩
        · exact Or.inl hkept
        · exact Or.inr ⟨other, mem_cons_of_mem _ hother, hcauseOther⟩
      · intro found hfound other hother otherCause hocause
        rcases mem_cons.mp hother with rfl | hother
        · exact absurd hocause (hnone otherCause)
        · exact hspec.least found hfound other hother otherCause hocause
      · rw [hspec.none, forall_mem_cons]
        constructor
        · exact fun h => ⟨h.1, hnone, h.2⟩
        · exact fun h => ⟨h.1, h.2.2⟩

/-- The attempt is the cause with the lowest number in its cycle. -/
def IsFirstCause (definition : FlowDefinition) (flow : FlowRun) (cycle : WorkflowCycle)
    (history : FlowRuntimeHistory) (attempt : NodeAttempt) (cause : RestartCause) : Prop :=
  (attempt ∈ history.attempts ∧ attempt.workflowCycleId = cycle.id ∧
    attempt.flowRunId = flow.id) ∧
  IsCause definition flow cycle history attempt cause ∧
  ∀ other ∈ history.attempts, other.workflowCycleId = cycle.id → other.flowRunId = flow.id →
    ∀ otherCause, IsCause definition flow cycle history other otherCause →
      attempt.number ≤ other.number

section

variable (hsound : SoundDefinition definition)
  (hdef : interpreter.validated.closure.definition flow.definition = some definition)

include hsound hdef

theorem restartInCycle_eq_some
    (hnums : ∀ left ∈ history.attempts, ∀ right ∈ history.attempts,
      left.flowRunId = right.flowRunId → left.number = right.number → left = right)
    {cause : RestartCause} : interpreter.restartInCycle flow cycle history = .ok (some cause) ↔
      ∃ attempt, IsFirstCause definition flow cycle history attempt cause := by
  obtain ⟨result, hfold, hspec⟩ := RestartSpec.of_foldlM hsound
    (history.attempts.filter fun row => row.workflowCycleId = cycle.id ∧ row.flowRunId = flow.id)
    (none : Option RestartCause)
  have hmem : ∀ attempt, attempt ∈ (history.attempts.filter fun row =>
      row.workflowCycleId = cycle.id ∧ row.flowRunId = flow.id) ↔
      attempt ∈ history.attempts ∧ attempt.workflowCycleId = cycle.id ∧
        attempt.flowRunId = flow.id := by
    intro attempt
    rw [mem_filter, decide_eq_true_eq]
  have hres : interpreter.restartInCycle flow cycle history = .ok result := by
    unfold restartInCycle
    rw [definition_eq_ok.mpr hdef]
    exact hfold
  rw [hres]
  constructor
  · intro heq
    have heq : result = some cause := Except.ok.inj heq
    rcases hspec.origin cause heq with hstart | ⟨attempt, hatt, hcause⟩
    · cases hstart
    · refine ⟨attempt, (hmem attempt).mp hatt, hcause, ?_⟩
      intro other hother hcycle hflow otherCause hocause
      rw [← hcause.1]
      exact hspec.least cause heq other ((hmem other).mpr ⟨hother, hcycle, hflow⟩) otherCause
        hocause
  · rintro ⟨attempt, hatt, hcause, hleast⟩
    cases hfound : result with
    | none =>
      exact absurd hcause ((hspec.none.mp hfound).2 attempt ((hmem attempt).mpr hatt) cause)
    | some found =>
      rcases hspec.origin found hfound with hstart | ⟨other, hother, hocause⟩
      · cases hstart
      · obtain ⟨hin, hcycle, hflow⟩ := (hmem other).mp hother
        -- Both have the lowest number, so they are the same row.
        have hge := hleast other hin hcycle hflow found hocause
        have hle := hspec.least found hfound attempt ((hmem attempt).mpr hatt) cause hcause
        rw [hocause.1] at hle
        have hsame : attempt = other :=
          hnums attempt hatt.1 other hin (by rw [hatt.2.2, hflow]) (le_antisymm hge hle)
        subst hsame
        rw [IsCause.unique hsound hcause hocause]

/-- The entry of a restarted cycle, read off the rows. -/
theorem cycleEntry_restart_eq_ok (hids : (history.attempts.map NodeAttempt.id).Nodup)
    (hnums : ∀ left ∈ history.attempts, ∀ right ∈ history.attempts,
      left.flowRunId = right.flowRunId → left.number = right.number → left = right)
    {predecessor : WorkflowCycleId} {previous : WorkflowCycle}
    (hpred : cycle.predecessor = some predecessor)
    (hprev : history.cycles.find? (·.id = predecessor) = some previous) :
    interpreter.cycleEntry flow cycle history = .ok key ↔ cycle.flowRunId = flow.id ∧
      (∀ row ∈ history.attempts, row.workflowCycleId = previous.id →
        isUnfinished history row = false) ∧ ∃ source cause, cycle.sourceAttemptId = some source.id ∧
        IsFirstCause definition flow previous history source cause ∧ cause.node = key := by
  unfold cycleEntry
  rw [guard_eq_ok, not_not, hpred]
  refine and_congr_right fun _ => ?_
  simp only [bind_eq_ok, okOr_eq_ok, guard_eq_ok, hprev, not_or, not_not, Bool.not_eq_true,
    any_eq_false, Bool.and_eq_true, decide_eq_true_eq, ne_eq, not_and]
  constructor
  · rintro ⟨source, hsrc, attempt, hatt, found, hfound, ⟨hflow, hcycle, hfin⟩, result,
      hres, h⟩
    cases hfound
    obtain ⟨hmem, hid⟩ := (find?_key_eq_some hids).mp hatt
    refine ⟨fun row hrow hsame => by simpa using hfin row hrow hsame, ?_⟩
    cases result with
    | none => cases h
    | some cause =>
      obtain ⟨first, hfirst⟩ := (restartInCycle_eq_some hsound hdef hnums).mp hres
      have hcheck : cause.source = source ∧ cause.node = key := by
        simp only at h
        split at h
        · rename_i heq
          exact ⟨heq, Except.ok.inj h⟩
        · cases h
      refine ⟨first, cause, ?_, hfirst, hcheck.2⟩
      rw [hsrc, ← hcheck.1, hfirst.2.1.2.1]
  · rintro ⟨hfin, source, cause, hsrc, hfirst, rfl⟩
    refine ⟨source.id, hsrc, source, (find?_key_eq_some hids).mpr ⟨hfirst.1.1, rfl⟩, previous,
      rfl, ⟨hfirst.1.2.2, hfirst.1.2.1, ?_⟩, some cause,
      (restartInCycle_eq_some hsound hdef hnums).mpr ⟨source, hfirst⟩, ?_⟩
    · intro row hrow hsame
      simpa using hfin row hrow hsame
    · simp only
      rw [if_pos hfirst.2.1.2.1]

end

/-- A cycle without predecessor starts at the entry of its definition. -/
theorem cycleEntry_initial_eq_ok
    (hdef : interpreter.validated.closure.definition flow.definition = some definition)
    (hpred : cycle.predecessor = none) :
    interpreter.cycleEntry flow cycle history = .ok key ↔
      cycle.flowRunId = flow.id ∧ key = definition.entry := by
  unfold cycleEntry
  rw [guard_eq_ok, not_not, hpred]
  simp only [definition_eq_ok.mpr hdef]
  refine and_congr_right fun _ => ?_
  constructor
  · intro h
    exact (Except.ok.inj h).symm
  · rintro rfl
    rfl

end OctaCity.Factory.Flow.FlowInterpreter
