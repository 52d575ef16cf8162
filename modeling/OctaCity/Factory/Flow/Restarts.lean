/-
  OctaCity.Factory.Flow.Restarts

  Cycle restarts of a driven run.  When the interpreter reports a restart of
  the newest cycle, the source it names is also the cause `cycle_entry`
  reconstructs, and it stays the cause: every attempt below the cycle's
  ceiling is settled by then, so no later row can enter the prefix.
-/
import OctaCity.Factory.Flow.RunOrder
import OctaCity.Factory.Flow.CycleEntry

namespace OctaCity.Factory.Flow

open FlowInterpreter Lib List

section Restarts

variable {interpreter : FlowInterpreter} {command : FlowCommand} {root : FlowRun} {history next : FlowRuntimeHistory}
  {flow : FlowRun} {cycle previous : WorkflowCycle} {definition : FlowDefinition}
  {source : NodeAttempt} {cause : RestartCause}

theorem belowCeiling_iff {number : NodeAttemptNumber} : belowCeiling history cycle number = true ↔
      ∃ row ∈ history.attempts, row.workflowCycleId = cycle.id ∧ number ≤ row.number := by
  unfold belowCeiling
  simp only [any_eq_true, decide_eq_true_eq]

theorem RunRows.completion_attempt (h : RunRows interpreter.validated root history)
    {completion : NodeAttemptCompletion} (hcomp : completion ∈ history.completions) :
    ∃ attempt ∈ history.attempts, attempt.id = completion.nodeAttemptId ∧
      attempt.flowRunId = completion.flowRunId ∧ attempt.nodeKey = completion.nodeKey := by
  obtain ⟨attempt, hatt, _, -, _, hid, -, -, hflow, -, hkey, -⟩ :=
    h.completion completion hcomp
  exact ⟨attempt, hatt, hid, hflow, hkey⟩

variable {attempt : NodeAttempt} {node : FactoryKey}

section

variable (hrows : RunRows interpreter.validated root history) (horder : RunOrder history)
  (hnewest : history.newestCycle? flow.id = some cycle) (hsrc : source ∈ history.attempts)
  (hsflow : source.flowRunId = flow.id) (hscyc : source.workflowCycleId = cycle.id)

include hrows horder hnewest hsrc hsflow hscyc

theorem RunOrder.belowCeiling_newest (hatt : attempt ∈ history.attempts)
    (hflow : attempt.flowRunId = flow.id) : belowCeiling history cycle attempt.number = true := by
  obtain ⟨hcycle, hcflow, hmax⟩ := newestCycle?_spec hnewest
  obtain ⟨own, hown, hownId, hownFlow⟩ := hrows.attempt_cycle hatt
  rw [belowCeiling_iff]
  rcases lt_or_eq_of_le (hmax own hown (by rw [hownFlow, hflow])) with hlt | heq
  · refine ⟨source, hsrc, hscyc, le_of_lt ?_⟩
    exact horder.ordered attempt hatt source hsrc (by rw [hflow, hsflow]) own hown
      cycle hcycle hownId hscyc.symm hlt
  · have hsame := hrows.cycle_number_unique hown hcycle (by rw [hownFlow, hflow, hcflow]) heq
    exact ⟨attempt, hatt, by rw [← hsame, hownId], le_refl _⟩

theorem RunOrder.prefixTraversals_newest (node outcome : FactoryKey) :
    prefixTraversals history flow cycle node outcome = history.traversals flow.id node outcome := by
  unfold prefixTraversals FlowRuntimeHistory.traversals
  apply countP_congr
  intro completion hcomp
  simp only [decide_eq_true_eq]
  refine ⟨fun h => ⟨h.1, h.2.2⟩, fun h => ⟨h.1, ?_, h.2⟩⟩
  obtain ⟨attempt, hatt, hid, hflow, -⟩ := hrows.completion_attempt hcomp
  rw [any_eq_true]
  refine ⟨attempt, hatt, ?_⟩
  rw [decide_eq_true_eq]
  exact ⟨hid, horder.belowCeiling_newest hrows hnewest hsrc hsflow hscyc hatt
    (by rw [hflow, h.1])⟩

end

theorem isCause_iff_restarts (hsound : SoundDefinition definition)
    (hcounts : ∀ node outcome, prefixTraversals history flow cycle node outcome =
      history.traversals flow.id node outcome) :
    IsCause definition flow cycle history attempt ⟨attempt.number, attempt.id, node⟩ ↔
      Restarts definition history flow.id attempt node := by
  unfold IsCause
  rw [restarts_iff hsound]
  simp only [hcounts, true_and]

/-! ## Fixed causes -/

/-- The cause of a cycle's restart, with nothing left to settle below its ceiling. -/
structure RestartFixed (definition : FlowDefinition) (history : FlowRuntimeHistory)
    (flow : FlowRun) (previous : WorkflowCycle) (source : NodeAttempt) (cause : RestartCause) :
    Prop where
  first : IsFirstCause definition flow previous history source cause
  settled : ∀ attempt ∈ history.attempts, attempt.flowRunId = flow.id →
    belowCeiling history previous attempt.number = true → Settled history attempt

/-- A reported restart names the cause of the newest cycle. -/
theorem RestartFixed.of_progress (hrows : RunRows interpreter.validated root history)
    (horder : RunOrder history) (hsound : SoundDefinition definition)
    (hflow : flow ∈ history.flowRuns)
    (hdef : interpreter.validated.closure.definition flow.definition = some definition)
    (hnewest : history.newestCycle? flow.id = some cycle) {sourceId : NodeAttemptId}
    (hprog : interpreter.progress flow cycle history = .ok (.restartCycle node sourceId)) :
    ∃ source, source.id = sourceId ∧ RestartFixed definition history flow cycle source
      ⟨source.number, source.id, node⟩ := by
  obtain ⟨-, before, source, after, heq, rfl, hrest, hbef⟩ :=
    progress_restart_spec hdef hprog
  have hmem : source ∈ cycleAttempts history flow cycle := by
    rw [heq]
    simp
  obtain ⟨hin, hsflow, hscyc⟩ := mem_cycleAttempts.mp hmem
  have hcounts := horder.prefixTraversals_newest hrows hnewest hin hsflow hscyc
  refine ⟨source, rfl, ⟨⟨hin, hscyc, hsflow⟩,
    (isCause_iff_restarts hsound hcounts).mpr hrest, ?_⟩, ?_⟩
  · intro other hother hocyc hoflow otherCause hcause
    have hrestarts : Restarts definition history flow.id other otherCause.node := by
      refine (isCause_iff_restarts hsound hcounts).mp ?_
      rw [← hcause.1, ← hcause.2.1]
      exact hcause
    have hotherMem : other ∈ cycleAttempts history flow cycle :=
      mem_cycleAttempts.mpr ⟨hother, hoflow, hocyc⟩
    have hsort : (cycleAttempts history flow cycle).Pairwise
        fun left right => left.number ≤ right.number := cycleAttempts_sorted
    rw [heq] at hotherMem hsort
    rcases mem_append.mp hotherMem with hearl | hlater
    · exact absurd hrestarts (hbef other hearl otherCause.node)
    · rcases mem_cons.mp hlater with rfl | hlater
      · exact le_refl _
      · rw [pairwise_append, pairwise_cons] at hsort
        exact hsort.2.1.1 other hlater
  · intro attempt hatt haflow _
    exact horder.settled_of_restart hrows hflow hnewest hprog hatt haflow

/-! ## One step -/

/-- A step completes nothing but an unfinished attempt. -/
theorem Step.completions (h : Step interpreter history command next) :
    next.completions = history.completions ∨ ∃ attempt ∈ history.attempts, ∃ completion,
      next.completions = history.completions ++ [completion] ∧
      completion.nodeAttemptId = attempt.id ∧ isUnfinished history attempt = true := by
  cases h with
  | complete hatt _ _ _ hopen _ hnew =>
    exact Or.inr ⟨_, hatt, _, rfl, hnew.id, hopen⟩
  | dispatch => exact Or.inl rfl
  | stop => exact Or.inl rfl
  | retry => exact Or.inl rfl
  | call => exact Or.inl rfl
  | restart => exact Or.inl rfl

/-- A step adds at most the next attempt of a Flow Run. -/
theorem Step.attempts (h : Step interpreter history command next) :
    next.attempts = history.attempts ∨ ∃ attempt,
      next.attempts = history.attempts ++ [attempt] ∧ history.IsNext attempt := by
  cases h with
  | dispatch _ _ _ _ _ _ _ hnext => exact Or.inr ⟨_, rfl, hnext⟩
  | retry _ _ _ _ _ _ _ _ _ _ _ _ _ hnext => exact Or.inr ⟨_, rfl, hnext⟩
  | complete => exact Or.inl rfl
  | stop => exact Or.inl rfl
  | call => exact Or.inl rfl
  | restart => exact Or.inl rfl

/-- The result of a settled attempt does not change. -/
theorem Step.completion?_of_settled (hrows : RunRows interpreter.validated root history)
    (hstep : Step interpreter history command next)
    (hatt : attempt ∈ history.attempts) (hset : Settled history attempt) :
    next.completion? attempt.id = history.completion? attempt.id := by
  unfold FlowRuntimeHistory.completion?
  rcases hstep.completions with heq | ⟨other, hother, completion, heq, hid, hopen⟩
  · rw [heq]
  · have hne : completion.nodeAttemptId ≠ attempt.id := by
      intro hsame
      have huniq := hrows.attempt_unique hother hatt (by rw [← hid, hsame])
      rw [huniq, hset.not_unfinished hrows] at hopen
      cases hopen
    rw [heq, List.find?_append]
    simp [hne]

theorem belowCeiling_eq (hext : Extends history next)
    (hnone : ∀ row ∈ next.attempts, row.workflowCycleId = previous.id → row ∈ history.attempts)
    (number : NodeAttemptNumber) :
    belowCeiling next previous number = belowCeiling history previous number := by
  rw [Bool.eq_iff_iff, belowCeiling_iff, belowCeiling_iff]
  constructor
  · rintro ⟨row, hrow, hcycle, hle⟩
    exact ⟨row, hnone row hrow hcycle, hcycle, hle⟩
  · rintro ⟨row, hrow, hcycle, hle⟩
    exact ⟨row, hext.attempts hrow, hcycle, hle⟩

section

variable (hrows : RunRows interpreter.validated root history)
  (hrowsN : RunRows interpreter.validated root next)

include hrows hrowsN

theorem prefixTraversals_eq (hstep : Step interpreter history command next)
    (hnone : ∀ row ∈ next.attempts, row.workflowCycleId = previous.id → row ∈ history.attempts)
    (hset : ∀ attempt ∈ history.attempts, attempt.flowRunId = flow.id →
      belowCeiling history previous attempt.number = true → Settled history attempt)
    (node outcome : FactoryKey) : prefixTraversals next flow previous node outcome =
      prefixTraversals history flow previous node outcome := by
  have hext := hstep.extends
  have hceiling := belowCeiling_eq hext hnone
  -- Within the old completions the predicate is the same one.
  have hcongr : history.completions.countP (fun completion =>
      completion.flowRunId = flow.id ∧
      (next.attempts.any fun row =>
        row.id = completion.nodeAttemptId ∧ belowCeiling next previous row.number) ∧
      completion.nodeKey = node ∧ completion.outcome = outcome) =
      prefixTraversals history flow previous node outcome := by
    unfold prefixTraversals
    apply countP_congr
    intro completion hcomp
    simp only [decide_eq_true_eq, any_eq_true, hceiling]
    refine and_congr_right fun _ => and_congr_left fun _ => ?_
    constructor
    · rintro ⟨row, hrow, hid, hbelow⟩
      obtain ⟨attempt, hatt, haid, -⟩ := hrows.completion_attempt hcomp
      have hsame := hrowsN.attempt_unique hrow (hext.attempts hatt)
        (by rw [hid, haid])
      subst hsame
      exact ⟨row, hatt, hid, hbelow⟩
    · rintro ⟨row, hrow, hid, hbelow⟩
      exact ⟨row, hext.attempts hrow, hid, hbelow⟩
  rw [← hcongr]
  unfold prefixTraversals
  rcases hstep.completions with heq | ⟨attempt, hatt, completion, heq, hid, hopen⟩
  · rw [heq]
  · rw [heq, countP_append, countP_singleton, if_neg, Nat.add_zero]
    simp only [decide_eq_true_eq, any_eq_true, hceiling]
    rintro ⟨hflow, ⟨row, hrow, hrowId, hbelow⟩, -⟩
    have hsame := hrowsN.attempt_unique hrow (hext.attempts hatt) (by rw [hrowId, hid])
    subst hsame
    obtain ⟨owner, howner, hownerId, hownerFlow, -⟩ := hrowsN.completion_attempt
      (show completion ∈ next.completions by rw [heq]; simp)
    have howned := hrowsN.attempt_unique howner hrow (by rw [hownerId, hid])
    rw [howned, hflow] at hownerFlow
    have hdone := (hset row hatt hownerFlow hbelow).not_unfinished hrows
    rw [hdone] at hopen
    cases hopen

end

section

variable (hrows : RunRows interpreter.validated root history) (horder : RunOrder history)
  (hsound : SoundDefinition definition) (hflow : flow ∈ history.flowRuns)
  (hdef : interpreter.validated.closure.definition flow.definition = some definition)
  (hprev : previous ∈ history.cycles) (howner : previous.flowRunId = flow.id)
  (h : RestartFixed definition history flow previous source cause)
  (hstep : Step interpreter history command next)

include hrows horder hsound hflow hdef hprev howner h hstep

theorem RestartFixed.no_attempt :
    ∀ row ∈ next.attempts, row.workflowCycleId = previous.id → row ∈ history.attempts := by
  obtain ⟨⟨hin, hscyc, hsflow⟩, hcause, -⟩ := h.first
  cases hstep with
  | @dispatch run cycle declared ready input attempt hrun hcycle hrunDef hready hkey hidle hnew
      hnext =>
    intro row hrow hid
    rcases mem_concat.mp hrow with hrow | rfl
    · exact hrow
    exfalso
    rw [hnew.cycle] at hid
    obtain ⟨hcycleMem, hcflow, -⟩ := newestCycle?_spec hcycle
    have hsame := hrows.cycle_unique hcycleMem hprev hid
    subst hsame
    have hsameRun := hrows.run_unique hrun hflow (by rw [← hcflow, howner])
    subst hsameRun
    rw [hdef] at hrunDef
    cases hrunDef
    -- The cause is also a restart of the position, which offers pending nodes only.
    have hcounts := horder.prefixTraversals_newest hrows hcycle hin hsflow hscyc
    have hrestarts : Restarts definition history run.id source cause.node := by
      refine (isCause_iff_restarts hsound hcounts).mp ?_
      rw [← hcause.1, ← hcause.2.1]
      exact hcause
    have hmem : source ∈ cycleAttempts history run cycle :=
      mem_cycleAttempts.mpr ⟨hin, hsflow, hscyc⟩
    obtain ⟨progress, hpos⟩ := readyNodes_eq_ok.mp hready
    obtain ⟨hspec, -⟩ := PositionSpec.of_position hdef (ne_nil_of_mem hmem) hpos
    obtain ⟨pending, hpend, hpendingKey⟩ :=
      (hspec.ready_restart ⟨source, hmem, cause.node, hrestarts⟩ attempt.nodeKey).mp hkey
    exact hasPending_eq_false.mp hidle pending hpendingKey hpend
  | @retry repeated attempt retried run cycle declared node receipt input hrepeated _ hrunId _
      hcycleId _ _ hrcpt _ _ hnew hretr honce _ _ =>
    intro row hrow hid
    rcases mem_concat.mp hrow with hrow | rfl
    · exact hrow
    exfalso
    obtain ⟨rfl, hsameFlow, hsameCycle, -⟩ := NodeAttempt.withRetryOf_eq_ok hretr
    have hrepeatedCycle : repeated.workflowCycleId = previous.id := hsameCycle.symm.trans hid
    have hrepeatedFlow : repeated.flowRunId = flow.id := by
      obtain ⟨own, hown, hownId, hownFlow⟩ := hrows.attempt_cycle hrepeated
      have hsame := hrows.cycle_unique hown hprev (by rw [hownId, hrepeatedCycle])
      rw [← hownFlow, hsame, howner]
    refine hrows.not_settled_of_stopped ⟨receipt, mem_of_find?_eq_some hrcpt,
      by simpa using List.find?_some hrcpt⟩ honce ?_
    refine h.settled repeated hrepeated hrepeatedFlow ?_
    exact belowCeiling_iff.mpr ⟨repeated, hrepeated, hrepeatedCycle, le_refl _⟩
  | complete => exact fun row hrow _ => hrow
  | stop => exact fun row hrow _ => hrow
  | call => exact fun row hrow _ => hrow
  | restart => exact fun row hrow _ => hrow

theorem RestartFixed.step (hrowsN : RunRows interpreter.validated root next) :
    RestartFixed definition next flow previous source cause := by
  have hext := hstep.extends
  have hnone := no_attempt hrows horder hsound hflow hdef hprev howner h hstep
  have hcounts := prefixTraversals_eq hrows hrowsN hstep hnone h.settled
  have hcauses : ∀ attempt ∈ history.attempts, attempt.workflowCycleId = previous.id →
      attempt.flowRunId = flow.id → ∀ other,
      (IsCause definition flow previous next attempt other ↔
        IsCause definition flow previous history attempt other) := by
    intro attempt hatt hcycle haflow other
    have hset : Settled history attempt := h.settled attempt hatt haflow
      (belowCeiling_iff.mpr ⟨attempt, hatt, hcycle, le_refl _⟩)
    unfold IsCause
    simp only [hstep.completion?_of_settled hrows hatt hset, hcounts]
  obtain ⟨⟨hin, hscyc, hsflow⟩, hcause, hleast⟩ := h.first
  refine ⟨⟨⟨hext.attempts hin, hscyc, hsflow⟩,
    (hcauses source hin hscyc hsflow cause).mpr hcause, ?_⟩, ?_⟩
  · intro other hother hocyc hoflow otherCause hocause
    have hold := hnone other hother hocyc
    exact hleast other hold hocyc hoflow otherCause
      ((hcauses other hold hocyc hoflow otherCause).mp hocause)
  · intro attempt hatt haflow hbelow
    rw [belowCeiling_eq hext hnone] at hbelow
    obtain ⟨row, hrow, hcycle, hle⟩ := belowCeiling_iff.mp hbelow
    have hrowFlow : row.flowRunId = flow.id := by
      obtain ⟨own, hown, hownId, hownFlow⟩ := hrows.attempt_cycle hrow
      rw [← hownFlow, hrows.cycle_unique hown hprev (by rw [hownId, hcycle]), howner]
    -- A number at or below the ceiling was given before this step.
    have hold : attempt ∈ history.attempts := by
      rcases hstep.attempts with heq | ⟨added, heq, hnext⟩
      · rwa [heq] at hatt
      · rw [heq] at hatt
        rcases mem_concat.mp hatt with hatt | rfl
        · exact hatt
        · have hlt := hrows.number_lt_next hnext hrow (by rw [hrowFlow, haflow])
          exact absurd hle (not_le.mpr hlt)
    exact (h.settled attempt hold haflow hbelow).mono hext

end

/-! ## Cycle entries -/

/-- The entry of a cycle is decided: it is the one of the definition, or the
    node named by the fixed cause of the cycle before. -/
inductive EntryFixed (definition : FlowDefinition) (history : FlowRuntimeHistory) (flow : FlowRun)
    (cycle : WorkflowCycle) : FactoryKey → Prop
  | initial (hpred : cycle.predecessor = none) :
      EntryFixed definition history flow cycle definition.entry
  | restarted {previous : WorkflowCycle} {source : NodeAttempt} {cause : RestartCause}
      (hprev : previous ∈ history.cycles) (howner : previous.flowRunId = flow.id)
      (hpred : cycle.predecessor = some previous.id)
      (hsrc : cycle.sourceAttemptId = some source.id)
      (hfixed : RestartFixed definition history flow previous source cause) :
      EntryFixed definition history flow cycle cause.node

section

variable (hrows : RunRows interpreter.validated root history)

include hrows

theorem EntryFixed.step {key : FactoryKey} (hrowsN : RunRows interpreter.validated root next)
    (horder : RunOrder history) (hsound : SoundDefinition definition)
    (hflow : flow ∈ history.flowRuns)
    (hdef : interpreter.validated.closure.definition flow.definition = some definition)
    (h : EntryFixed definition history flow cycle key)
    (hstep : Step interpreter history command next) :
    EntryFixed definition next flow cycle key := by
  cases h with
  | initial hpred => exact .initial hpred
  | restarted hprev howner hpred hsrc hfixed =>
    exact .restarted (hstep.extends.cycles hprev) howner hpred hsrc
      (hfixed.step hrows horder hsound hflow hdef hprev howner hstep hrowsN)

/-- `cycle_entry` reconstructs a decided entry. -/
theorem EntryFixed.cycleEntry_eq {key : FactoryKey} (hsound : SoundDefinition definition)
    (hdef : interpreter.validated.closure.definition flow.definition = some definition)
    (hcycle : cycle.flowRunId = flow.id) (h : EntryFixed definition history flow cycle key) :
    interpreter.cycleEntry flow cycle history = .ok key := by
  cases h with
  | initial hpred => exact (cycleEntry_initial_eq_ok hdef hpred).mpr ⟨hcycle, rfl⟩
  | @restarted previous source cause hprev howner hpred hsrc hfixed =>
    have hfind : history.cycles.find? (·.id = previous.id) = some previous :=
      (find?_key_eq_some hrows.cycles).mpr ⟨hprev, rfl⟩
    refine (cycleEntry_restart_eq_ok hsound hdef hrows.attempts ?_ hpred hfind).mpr
      ⟨hcycle, ?_, source, cause, hsrc, hfixed.first, rfl⟩
    · intro left hleft right hright hsame hnum
      exact hrows.number_unique hleft hright hsame hnum
    · intro row hrow hid
      obtain ⟨own, hown, hownId, hownFlow⟩ := hrows.attempt_cycle hrow
      have hsame := hrows.cycle_unique hown hprev (by rw [hownId, hid])
      refine (hfixed.settled row hrow ?_ ?_).not_unfinished hrows
      · rw [← hownFlow, hsame, howner]
      · exact belowCeiling_iff.mpr ⟨row, hrow, hid, le_refl _⟩

/-- The cycle built from a reported restart has its entry decided. -/
theorem EntryFixed.of_restart (horder : RunOrder history) (hsound : SoundDefinition definition)
    (hflow : flow ∈ history.flowRuns)
    (hdef : interpreter.validated.closure.definition flow.definition = some definition)
    (hnewest : history.newestCycle? flow.id = some cycle) (hsrc : source ∈ history.attempts)
    (hprog : interpreter.progress flow cycle history = .ok (.restartCycle node source.id))
    {id : WorkflowCycleId} {created : WorkflowCycle}
    (hcreat : WorkflowCycle.restart id cycle source = .ok created) :
    EntryFixed definition history flow created node := by
  obtain ⟨hcycle, howner, -⟩ := newestCycle?_spec hnewest
  obtain ⟨-, -, -, -, -, hpred, hsourceId⟩ := WorkflowCycle.restart_eq_ok hcreat
  obtain ⟨found, hid, hfixed⟩ :=
    RestartFixed.of_progress hrows horder hsound hflow hdef hnewest hprog
  have hsame := hrows.attempt_unique hfixed.first.1.1 hsrc hid
  subst hsame
  show EntryFixed definition history flow created (RestartCause.mk found.number found.id node).node
  exact .restarted hcycle howner hpred hsourceId hfixed

end

end Restarts

/-! ## Restarted cycles -/

/-- A reported restart stays valid: whatever rows the run appends later, `cycle_entry`
    reconstructs the reported node for the cycle built from the reported source. -/
theorem restarted_cycle_entry {checks : DefinitionChecks} {closure : PinnedFlowDefinitionClosure}
    {limits : FlowAdmissionLimits} {validated : ValidatedFlowDefinitionClosure}
    (hvalid : ValidatedFlowDefinitionClosure.new checks closure limits = .ok validated)
    {run : FactoryRunId} {commands : List FlowCommand} {history : FlowRuntimeHistory}
    (hrun : FlowInterpreter.run ⟨validated⟩ everyStep (FlowRun.root run closure.root) commands =
      some history) {flow : FlowRun} (hflow : flow ∈ history.flowRuns) {cycle : WorkflowCycle}
    (hnewest : history.newestCycle? flow.id = some cycle) {node : FactoryKey}
    {source : NodeAttemptId} (hprog : FlowInterpreter.progress ⟨validated⟩ flow cycle history =
      .ok (.restartCycle node source)) : ∃ attempt, history.attempt? source = some attempt ∧
      attempt.flowRunId = cycle.flowRunId ∧ attempt.workflowCycleId = cycle.id ∧
      ∀ id created, WorkflowCycle.restart id cycle attempt = .ok created →
        ∀ more later, FlowInterpreter.run ⟨validated⟩ everyStep (FlowRun.root run closure.root)
            (commands ++ more) = some later →
          FlowInterpreter.cycleEntry ⟨validated⟩ flow created later = .ok node := by
  obtain ⟨hclos, rfl, -⟩ := SoundClosure.of_new hvalid
  obtain ⟨hrows, horder⟩ := RunRows.of_root hrun
  obtain ⟨definition, hdef⟩ := (hrows.run flow hflow).definition
  have hsound := hclos.sound hdef
  obtain ⟨attempt, rfl, hfixed⟩ :=
    RestartFixed.of_progress hrows horder hsound hflow hdef hnewest hprog
  obtain ⟨hatt, hattemptCycle, haflow⟩ := hfixed.first.1
  obtain ⟨-, howner, -⟩ := newestCycle?_spec hnewest
  refine ⟨attempt, (find?_key_eq_some hrows.attempts).mpr ⟨hatt, rfl⟩,
    by rw [haflow, howner], hattemptCycle, ?_⟩
  intro id created hcreat more later hlater
  have hentry := EntryFixed.of_restart hrows horder hsound hflow hdef hnewest hatt hprog
    hcreat
  rw [run_append hrun] at hlater
  -- The entry stays decided along the remaining commands.
  obtain ⟨hrowsLater, -, -, hlaterEntry⟩ := drive_induction
    (P := fun later => RunRows validated (FlowRun.root run validated.closure.root) later ∧
      RunOrder later ∧ flow ∈ later.flowRuns ∧ EntryFixed definition later flow created node)
    (by
      rintro current command next ⟨hrows, horder, hflow, hentry⟩ - hnext
      have hstep := step_cases hnext
      have hrowsN := hrows.step hstep
      exact ⟨hrowsN, RunOrder.step hrows horder hstep, hstep.extends.flowRuns hflow,
        hentry.step hrows hrowsN horder hsound hflow hdef hstep⟩)
    ⟨hrows, horder, hflow, hentry⟩ hlater
  refine hlaterEntry.cycleEntry_eq hrowsLater hsound hdef ?_
  rw [(WorkflowCycle.restart_eq_ok hcreat).2.2.2.1, howner]

namespace Loop

/-- One node that restarts its cycle once and then ends. -/
def definition : FlowDefinition :=
  { reference := Diamond.reference
    entry := ⟨"work"⟩
    nodes := [Diamond.node "work" .join]
    transitions :=
      [{ predecessor := ⟨"work"⟩, outcome := ⟨"ok"⟩, target := .node ⟨"work"⟩, maxRepeats := 1,
         exhaustedTerminal := some ⟨"done"⟩, startsCycle := true }]
    terminals := [⟨⟨"done"⟩, Diamond.okOutcome.schema⟩]
    execution := ⟨Diamond.budget, {}, 4⟩ }

def closure : PinnedFlowDefinitionClosure :=
  ⟨Diamond.reference, [definition], pairwise_singleton _ _, by decide, by decide,
    by decide +kernel⟩

def validated : ValidatedFlowDefinitionClosure := ⟨closure, Diamond.limits, 2, 1⟩

theorem closure_validated : ValidatedFlowDefinitionClosure.new Diamond.checks.toDefinitionChecks
    closure Diamond.limits = .ok validated := by decide +kernel

def firstCycle : List FlowCommand :=
  [.dispatch Diamond.root.id (Diamond.input "work" .join 1),
   .complete (Diamond.attemptId 1) Diamond.result]

def secondCycle : List FlowCommand :=
  [.restart Diamond.root.id (Diamond.identity 9),
   .dispatch Diamond.root.id (Diamond.input "work" .join 2),
   .complete (Diamond.attemptId 2) Diamond.result]

def history : FlowRuntimeHistory :=
  (FlowInterpreter.run ⟨validated⟩ everyStep Diamond.root firstCycle).getD
    (FlowRuntimeHistory.start Diamond.root)

/-- The second cycle starts with `work`, also after `work` has run in it. -/
theorem second_cycle_entry : ∃ attempt created later,
    history.attempt? (Diamond.attemptId 1) = some attempt ∧
    WorkflowCycle.restart ⟨9, by decide⟩ (WorkflowCycle.initial Diamond.root) attempt =
      .ok created ∧
    FlowInterpreter.run ⟨validated⟩ everyStep Diamond.root (firstCycle ++ secondCycle) =
      some later ∧
    FlowInterpreter.cycleEntry ⟨validated⟩ Diamond.root created later = .ok ⟨"work"⟩ := by
  have hrun : FlowInterpreter.run ⟨validated⟩ everyStep Diamond.root firstCycle = some history := by
    decide
  have hprog : FlowInterpreter.progress ⟨validated⟩ Diamond.root
      (WorkflowCycle.initial Diamond.root) history =
        .ok (.restartCycle ⟨"work"⟩ (Diamond.attemptId 1)) := by decide
  have hflow : Diamond.root ∈ history.flowRuns := by decide
  have hnewest : history.newestCycle? Diamond.root.id =
      some (WorkflowCycle.initial Diamond.root) := by decide
  obtain ⟨attempt, hatt, -, -, hentry⟩ :=
    restarted_cycle_entry closure_validated hrun hflow hnewest hprog
  have hcreat : ((history.attempt? (Diamond.attemptId 1)).bind fun attempt =>
      (WorkflowCycle.restart ⟨9, by decide⟩ (WorkflowCycle.initial Diamond.root)
        attempt).toOption).isSome = true := by decide
  have hlater : (FlowInterpreter.run ⟨validated⟩ everyStep Diamond.root
      (firstCycle ++ secondCycle)).isSome = true := by decide
  obtain ⟨created, hcreat⟩ := Option.isSome_iff_exists.mp hcreat
  obtain ⟨later, hlater⟩ := Option.isSome_iff_exists.mp hlater
  rw [hatt, Option.bind_some, toOption_eq_some] at hcreat
  exact ⟨attempt, created, later, hatt, hcreat, hlater,
    hentry _ created hcreat secondCycle later hlater⟩

end Loop

end OctaCity.Factory.Flow
