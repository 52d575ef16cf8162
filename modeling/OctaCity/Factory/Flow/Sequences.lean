/-
  OctaCity.Factory.Flow.Sequences

  Numbering in accepted histories.  The validator looks at one row at a time: a
  cycle and its predecessor, a count of rows with one predecessor, an attempt and
  the one it repeats.
-/
import OctaCity.Factory.Flow.Visits
import OctaCity.Lib.Numbering

namespace OctaCity.Factory.Flow

open FlowRuntimeHistory Lib List

section Sequences

variable {checks : AdmissionChecks} {admitted : AdmittedFlow}
  {validated : ValidatedFlowDefinitionClosure} {history : FlowRuntimeHistory}

variable {cycle : WorkflowCycle} {flow : FlowRun}

theorem FlowRuntimeHistory.mem_runCycles {flow : FlowRunId} :
    cycle ∈ history.runCycles flow ↔ cycle ∈ history.cycles ∧ cycle.flowRunId = flow := by
  simp [FlowRuntimeHistory.runCycles]

/-! ## Cycles -/

namespace Accepted

variable (h : Accepted admitted validated history)
include h

section

variable (hflow : flow ∈ history.flowRuns)

include hflow

/-- A cycle is the initial one or follows the cycle numbered one less. -/
theorem cycle_cases (hcycle : cycle ∈ history.cycles) (howner : cycle.flowRunId = flow.id) :
    (cycle.predecessor = none ∧ cycle.number.value = 1) ∨
      ∃ previous ∈ history.cycles, previous.flowRunId = flow.id ∧
        cycle.predecessor = some previous.id ∧ cycle.number.value = previous.number.value + 1 := by
  obtain ⟨initial, -, -, -, hinit, huniq⟩ := (h.cycle flow hflow).initial
  cases hpred : cycle.predecessor with
  | none =>
    rw [huniq cycle hcycle howner hpred]
    simp only [isInitialCycle, decide_eq_true_eq] at hinit
    exact Or.inl ⟨rfl, by rw [hinit.1]; rfl⟩
  | some predecessor =>
    obtain ⟨⟨previous, hprev, hid, hpown, hnum⟩, -, -⟩ :=
      (h.cycle flow hflow).successor cycle hcycle howner predecessor hpred
    exact Or.inr ⟨previous, hprev, hpown, by rw [hid],
      Sequence.next?_eq_some hnum⟩

theorem cycle_no_fork {left right : WorkflowCycle} (hleft : left ∈ history.cycles)
    (hright : right ∈ history.cycles) (hleftOwner : left.flowRunId = flow.id)
    (hrown : right.flowRunId = flow.id) (hsame : left.predecessor = right.predecessor) :
    left = right := by
  cases hpred : left.predecessor with
  | none =>
    obtain ⟨initial, -, -, -, -, huniq⟩ := (h.cycle flow hflow).initial
    rw [huniq left hleft hleftOwner hpred,
      huniq right hright hrown (by rw [← hsame, hpred])]
  | some predecessor =>
    obtain ⟨-, hone, -⟩ :=
      (h.cycle flow hflow).successor left hleft hleftOwner predecessor hpred
    exact eq_of_countP_eq_one hone hleft hright (by simpa using hpred)
      (by simpa using hsame ▸ hpred)

theorem cycle_number_unique (number : Nat) :
    ∀ {left right : WorkflowCycle}, left ∈ history.cycles → right ∈ history.cycles →
      left.flowRunId = flow.id → right.flowRunId = flow.id → left.number.value = number →
      right.number.value = number → left = right := by
  -- Equal numbers have equally numbered predecessors, down to the initial cycle.
  induction number with
  | zero =>
    intro left _ _ _ _ _ hnum
    have := left.number.positive
    omega
  | succ number ih =>
    intro left right hleft hright hleftOwner hrown hleftNumber hrightNumber
    refine h.cycle_no_fork hflow hleft hright hleftOwner hrown ?_
    rcases h.cycle_cases hflow hleft hleftOwner with
      ⟨hleftFirst, hone⟩ | ⟨before, hbef, hbeforeOwner, hleftOf, hleftNext⟩
    · rcases h.cycle_cases hflow hright hrown with
        ⟨hrightFirst, -⟩ | ⟨other, -, -, -, hrightNext⟩
      · rw [hleftFirst, hrightFirst]
      · have := other.number.positive
        omega
    · rcases h.cycle_cases hflow hright hrown with
        ⟨-, hone⟩ | ⟨other, hother, hotherOwner, hrightOf, hrightNext⟩
      · have := before.number.positive
        omega
      · rw [hleftOf, hrightOf, ih hbef hother hbeforeOwner hotherOwner (by omega) (by omega)]

end

end Accepted

/-- The cycles of a Flow Run in the order of their numbers. -/
def sortedCycles (history : FlowRuntimeHistory) (flow : FlowRunId) : List WorkflowCycle :=
  (history.runCycles flow).insertionSort fun left right => left.number ≤ right.number

theorem mem_sortedCycles {flow : FlowRunId} :
    cycle ∈ sortedCycles history flow ↔ cycle ∈ history.cycles ∧ cycle.flowRunId = flow := by
  rw [sortedCycles, mem_insertionSort, mem_runCycles]

namespace Accepted

variable (h : Accepted admitted validated history)
include h

section

variable (hflow : flow ∈ history.flowRuns)

include hflow

theorem sortedCycles_strict :
    (sortedCycles history flow.id).Pairwise fun left right => left.number < right.number := by
  refine pairwise_lt_insertionSort (List.Nodup.map_on ?_ ?_)
  · intro left hleft right hright hnum
    obtain ⟨hleft, hleftOwner⟩ := mem_runCycles.mp hleft
    obtain ⟨hright, hrown⟩ := mem_runCycles.mp hright
    exact h.cycle_number_unique hflow _ hleft hright hleftOwner hrown
      (congrArg Sequence.value hnum) rfl
  · exact (List.Nodup.of_map _ h.cycles).filter _

/-- The cycles of a Flow Run are numbered 1, 2, and so on. -/
theorem sortedCycles_numbers : (sortedCycles history flow.id).map (·.number.value) =
      List.range' 1 (sortedCycles history flow.id).length := by
  have hrange : (sortedCycles history flow.id).map (·.number.value) =
      List.range' 1 ((sortedCycles history flow.id).map (·.number.value)).length := by
    refine eq_range'_of_pairwise ?_ ?_ ?_
    · rw [pairwise_map]
      exact h.sortedCycles_strict hflow
    · intro number hnum
      obtain ⟨cycle, -, rfl⟩ := mem_map.mp hnum
      exact cycle.number.positive
    · intro number hnum hlt
      obtain ⟨cycle, hcycle, rfl⟩ := mem_map.mp hnum
      obtain ⟨hcycle, howner⟩ := mem_sortedCycles.mp hcycle
      rcases h.cycle_cases hflow hcycle howner with ⟨-, hone⟩ | ⟨previous, hprev, hpown,
        -, hnext⟩
      · omega
      · refine mem_map.mpr ⟨previous, mem_sortedCycles.mpr ⟨hprev, hpown⟩, ?_⟩
        omega
  rwa [length_map] at hrange

/-- Each cycle of a Flow Run follows the one numbered before it. -/
theorem sortedCycles_chain : (sortedCycles history flow.id).IsChain
      fun previous next => next.predecessor = some previous.id := by
  have hnext := isChain_of_map_eq_range' (h.sortedCycles_numbers hflow)
  refine hnext.imp_of_mem_imp fun previous next hprev hnext hnum => ?_
  obtain ⟨hprev, hpown⟩ := mem_sortedCycles.mp hprev
  obtain ⟨hnext, hnextOwner⟩ := mem_sortedCycles.mp hnext
  rcases h.cycle_cases hflow hnext hnextOwner with ⟨-, hone⟩ | ⟨other, hother, hotherOwner, hof,
    hotherNext⟩
  · have := previous.number.positive
    omega
  · rw [hof, h.cycle_number_unique hflow _ hother hprev hotherOwner hpown rfl
      (by omega)]

theorem newest_cycle : ∃ newest ∈ history.cycles, newest.flowRunId = flow.id ∧
      ∀ other ∈ history.cycles, other.flowRunId = flow.id → other ≠ newest →
        other.number < newest.number := by
  obtain ⟨initial, hinit, howner, -⟩ := (h.cycle flow hflow).initial
  have hne : sortedCycles history flow.id ≠ [] :=
    ne_nil_of_mem (mem_sortedCycles.mpr ⟨hinit, howner⟩)
  obtain ⟨earlier, newest, hsplit⟩ := (eq_nil_or_concat' _).resolve_left hne
  obtain ⟨hnew, hnewestOwner⟩ := mem_sortedCycles.mp
    (by rw [hsplit]; simp : newest ∈ sortedCycles history flow.id)
  refine ⟨newest, hnew, hnewestOwner, ?_⟩
  intro other hother hotherOwner hdifferent
  have hmem := mem_sortedCycles.mpr ⟨hother, hotherOwner⟩
  have hstrict := h.sortedCycles_strict hflow
  rw [hsplit] at hmem hstrict
  rcases mem_append.mp hmem with hmem | hmem
  · exact (pairwise_append.mp hstrict).2.2 other hmem newest (mem_singleton_self _)
  · exact absurd (mem_singleton.mp hmem) hdifferent

end

end Accepted

/-! ## Retries -/

/-- Attempts of the history that each repeat the one before. -/
def IsRetryChain (history : FlowRuntimeHistory) (chain : List NodeAttempt) : Prop :=
  (∀ attempt ∈ chain, attempt ∈ history.attempts) ∧
    chain.IsChain fun previous next => next.retryOf = some previous.id

/-- The later attempt executes the same node again. -/
structure Repeats (previous next : NodeAttempt) : Prop where
  number : previous.number < next.number
  flow : previous.flowRunId = next.flowRunId
  cycle : previous.workflowCycleId = next.workflowCycleId
  node : previous.nodeKey = next.nodeKey
  executor : previous.execution = next.execution
  budget : previous.budget = next.budget

theorem Repeats.trans {first second third : NodeAttempt} (hleft : Repeats first second)
    (hright : Repeats second third) : Repeats first third where
  number := hleft.number.trans hright.number
  flow := hleft.flow.trans hright.flow
  cycle := hleft.cycle.trans hright.cycle
  node := hleft.node.trans hright.node
  executor := hleft.executor.trans hright.executor
  budget := hleft.budget.trans hright.budget

instance : IsTrans NodeAttempt Repeats := ⟨fun _ _ _ => Repeats.trans⟩

/-- The attempt was stopped as failed before the later one started. -/
def FailedBefore (history : FlowRuntimeHistory) (previous next : NodeAttempt) : Prop :=
  ∃ receipt ∈ history.stops, receipt.nodeAttemptId = previous.id ∧
    receipt.reason = .executionFailed ∧ receipt.observedAt ≤ next.startedAt

theorem Repeats.of_withRetryOf {previous next : NodeAttempt}
    (h : next.withRetryOf previous = .ok next) : Repeats previous next := by
  unfold NodeAttempt.withRetryOf at h
  obtain ⟨hguard, -⟩ := guard_eq_ok.mp h
  simp only [not_or, not_not, not_le] at hguard
  obtain ⟨-, hflow, hcycle, hkey, -, hexec, hbud, hnum, -⟩ := hguard
  exact ⟨hnum, hflow.symm, hcycle.symm, hkey.symm, hexec.symm, hbud.symm⟩

namespace Accepted

variable (h : Accepted admitted validated history)
include h

theorem acceptedRetry {attempt : NodeAttempt} (hatt : attempt ∈ history.attempts)
    {previousId : NodeAttemptId} (hretry : attempt.retryOf = some previousId) :
    ∃ flow ∈ history.flowRuns, ∃ definition, flow.id = attempt.flowRunId ∧
      validated.closure.definition flow.definition = some definition ∧
      AcceptedRetry definition history attempt previousId := by
  obtain ⟨flow, hflow, _, -, definition, _, hid, -, hdef, -⟩ := (h.attempt attempt hatt).bound
  exact ⟨flow, hflow, definition, hid, hdef,
    (h.route flow hflow definition hdef attempt hatt hid.symm).retry previousId hretry⟩

/-- What one retry says about the attempt it repeats. -/
theorem repeats {previous next : NodeAttempt} (hprev : previous ∈ history.attempts)
    (hnext : next ∈ history.attempts) (hretry : next.retryOf = some previous.id) :
    Repeats previous next ∧ FailedBefore history previous next := by
  obtain ⟨_, -, _, -, -, hacc⟩ := h.acceptedRetry hnext hretry
  obtain ⟨row, hrow, hid, hagain⟩ := hacc.lineage
  obtain ⟨receipt, hrcpt, hreason, htime⟩ := hacc.failed
  rw [h.attempt_unique hrow hprev hid] at hagain
  exact ⟨Repeats.of_withRetryOf hagain, receipt, mem_of_find?_eq_some hrcpt,
    by simpa using List.find?_some hrcpt, hreason, htime⟩

theorem retry_no_fork {left right : NodeAttempt} (hleft : left ∈ history.attempts)
    (hright : right ∈ history.attempts) {previousId : NodeAttemptId}
    (hleftOf : left.retryOf = some previousId) (hrightOf : right.retryOf = some previousId) :
    left = right := by
  obtain ⟨_, -, _, -, -, hacc⟩ := h.acceptedRetry hleft hleftOf
  exact eq_of_countP_eq_one hacc.once hleft hright (by simpa using hleftOf)
    (by simpa using hrightOf)

/-- A chain that ends in an attempt is no longer than the retries it is allowed. -/
theorem retryChain_length {maximum : Nat} {chain : List NodeAttempt} {last : NodeAttempt}
    (hchain : IsRetryChain history (chain ++ [last]))
    (hwith : history.retriesWithin maximum last = true) : chain.length ≤ maximum := by
  induction chain using List.reverseRecOn generalizing maximum last with
  | nil => exact Nat.zero_le _
  | append_singleton chain previous ih =>
    obtain ⟨hmem, hlinks⟩ := hchain
    have hretry : last.retryOf = some previous.id := by
      rw [append_assoc, singleton_append] at hlinks
      exact (isChain_append_cons_cons.mp hlinks).2.1
    have hprev : previous ∈ history.attempts := hmem previous (by simp)
    rcases retriesWithin_iff.mp hwith with hnone | ⟨parent, row, rest, hpar, hfind, rfl, hrest⟩
    · rw [hnone] at hretry
      cases hretry
    · rw [hretry] at hpar
      cases hpar
      rw [h.attempt?_eq.mpr ⟨hprev, rfl⟩] at hfind
      cases hfind
      have hshort := ih ⟨fun attempt hatt => hmem attempt (by simp at hatt ⊢; tauto),
        hlinks.left_of_append⟩ hrest
      rw [length_append, length_singleton]
      omega

end Accepted

/-! ## Accepted histories -/

/-- The cycles of a Flow Run form one chain, numbered from 1. -/
structure CycleSequence (history : FlowRuntimeHistory) (flow : FlowRunId) : Prop where
  numbers : (sortedCycles history flow).map (·.number.value) =
    List.range' 1 (sortedCycles history flow).length
  chain : (sortedCycles history flow).IsChain
    fun previous next => next.predecessor = some previous.id
  noFork : ∀ left ∈ history.cycles, ∀ right ∈ history.cycles, left.flowRunId = flow →
    right.flowRunId = flow → left.predecessor = right.predecessor → left = right
  newest : ∃ newest ∈ history.cycles, newest.flowRunId = flow ∧
    ∀ other ∈ history.cycles, other.flowRunId = flow → other ≠ newest →
      other.number < newest.number

/-- Attempts that repeat one another: in order, of one node, each failed
    before the next, and no more than the node declares. -/
structure RetrySequence (admitted : AdmittedFlow) (history : FlowRuntimeHistory)
    (chain : List NodeAttempt) : Prop where
  repeats : chain.Pairwise Repeats
  failed : chain.IsChain (FailedBefore history)
  noFork : ∀ left ∈ history.attempts, ∀ previous ∈ chain, ∀ right ∈ chain,
    left.retryOf = some previous.id → right.retryOf = some previous.id → left = right
  bounded : ∀ attempt ∈ chain, ∀ flow ∈ history.flowRuns, flow.id = attempt.flowRunId →
    ∀ definition, admitted.closure.definition flow.definition = some definition →
      ∀ node, definition.node attempt.nodeKey = some node →
        chain.length ≤ node.maxExecutionRetries + 1

namespace Accepted

variable (h : Accepted admitted validated history)
include h

theorem cycleSequence (hflow : flow ∈ history.flowRuns) : CycleSequence history flow.id where
  numbers := h.sortedCycles_numbers hflow
  chain := h.sortedCycles_chain hflow
  noFork _ hleft _ hright hleftOwner hrown :=
    h.cycle_no_fork hflow hleft hright hleftOwner hrown
  newest := h.newest_cycle hflow

theorem runAttempts_numbers (flow : FlowRunId) : (runAttempts history flow).map (·.number.value) =
      List.range' 1 (runAttempts history flow).length := by
  cases hrows : runAttempts history flow with
  | nil => rfl
  | cons attempt rest =>
    obtain ⟨hatt, howner⟩ := mem_runAttempts.mp
      (by rw [hrows]; exact mem_cons_self .. : attempt ∈ runAttempts history flow)
    have hnumd := h.numbered attempt hatt
    rw [howner, isNumberedInSequence, decide_eq_true_eq, hrows] at hnumd
    exact hnumd

theorem retrySequence (hclosure : validated.closure = admitted.closure) {chain : List NodeAttempt}
    (hchain : IsRetryChain history chain) : RetrySequence admitted history chain := by
  have hlinks : chain.IsChain fun previous next =>
      Repeats previous next ∧ FailedBefore history previous next :=
    hchain.2.imp_of_mem_imp fun previous next hprev hnext hretry =>
      h.repeats (hchain.1 previous hprev) (hchain.1 next hnext) hretry
  have hrepeats : chain.Pairwise Repeats :=
    isChain_iff_pairwise.mp (hlinks.imp fun _ _ hlink => hlink.1)
  refine ⟨hrepeats, hlinks.imp fun _ _ hlink => hlink.2, ?_, ?_⟩
  · intro left hleft previous _ right hright hleftOf hrightOf
    exact h.retry_no_fork hleft (hchain.1 right hright) hleftOf hrightOf
  · intro attempt hatt flow hflow hid definition hdef node hnode
    -- The bound is checked at the last attempt, which executes the same node.
    rcases eq_nil_or_concat' chain with rfl | ⟨earlier, last, rfl⟩
    · cases hatt
    have hlast : last ∈ history.attempts := hchain.1 last (by simp)
    have hsame : attempt.flowRunId = last.flowRunId ∧ attempt.nodeKey = last.nodeKey := by
      rcases mem_append.mp hatt with hearl | hatt
      · have hrepeat := (pairwise_append.mp hrepeats).2.2 attempt hearl last
          (mem_singleton_self _)
        exact ⟨hrepeat.flow, hrepeat.node⟩
      · rw [mem_singleton.mp hatt]
        exact ⟨rfl, rfl⟩
    rw [length_append, length_singleton]
    refine Nat.add_le_add_right ?_ 1
    cases hretry : last.retryOf with
    | none =>
      refine h.retryChain_length hchain (retriesWithin_iff.mpr (Or.inl hretry))
    | some previousId =>
      obtain ⟨owner, howner, found, hownerId, hfound, hacc⟩ := h.acceptedRetry hlast hretry
      have hrun : owner = flow := h.run_unique howner hflow (by rw [hownerId, hid, hsame.1])
      subst hrun
      rw [hclosure, hdef] at hfound
      cases hfound
      obtain ⟨declared, hdecl, hwith⟩ := hacc.bounded
      rw [← hsame.2, hnode] at hdecl
      cases hdecl
      exact h.retryChain_length hchain hwith

end Accepted

/-- In an accepted history the cycles and the attempts of every Flow Run are
    numbered without gaps and every chain of retries is in order and bounded. -/
theorem accepted_history_in_sequence
    (h : validateFlowRuntimeHistory checks admitted history = .ok ()) :
    (∀ flow ∈ history.flowRuns, CycleSequence history flow.id ∧
      (runAttempts history flow.id).map (·.number.value) =
        List.range' 1 (runAttempts history flow.id).length) ∧
    ∀ chain, IsRetryChain history chain → RetrySequence admitted history chain := by
  obtain ⟨validated, hvalidated, hacc⟩ := validateFlowRuntimeHistory_eq_ok.mp h
  obtain ⟨-, hclosure, -, -⟩ := AdmittedFlow.validated_eq_ok hvalidated
  refine ⟨?_, ?_⟩
  · intro flow hflow
    exact ⟨hacc.cycleSequence hflow, hacc.runAttempts_numbers flow.id⟩
  · intro chain hchain
    exact hacc.retrySequence hclosure hchain

end Sequences

/-! ## A call beside a repeated build -/

namespace Nested

open Diamond (okOutcome budget)

def childReference : FlowDefinitionRef := ⟨Diamond.identity 2, .initial, ⟨7⟩⟩

def doneOutcome : FlowOutcomeDefinition := ⟨⟨"done"⟩, okOutcome.schema⟩

/-- One node that ends the called Flow. -/
def child : FlowDefinition :=
  { reference := childReference
    entry := ⟨"work"⟩
    nodes := [Diamond.node "work" .join]
    transitions :=
      [{ predecessor := ⟨"work"⟩, outcome := ⟨"ok"⟩, target := .terminal ⟨"done"⟩ }]
    terminals := [⟨⟨"done"⟩, okOutcome.schema⟩]
    execution := ⟨budget, {}, 4⟩ }

/-- `split` starts a call of `child` beside a build that may be repeated once. -/
def definition : FlowDefinition :=
  { reference := Diamond.reference
    entry := ⟨"split"⟩
    nodes :=
      [{ key := ⟨"build"⟩, kind := .buildCommand, outcomes := [okOutcome], budget,
         maxExecutionRetries := 1 },
       { key := ⟨"call"⟩, kind := .subflowCall, outcomes := [doneOutcome], budget,
         subflow := some childReference },
       Diamond.node "split" .fanOut]
    transitions :=
      [{ predecessor := ⟨"build"⟩, outcome := ⟨"ok"⟩, target := .terminal ⟨"done"⟩ },
       { predecessor := ⟨"call"⟩, outcome := ⟨"done"⟩, target := .terminal ⟨"done"⟩ },
       { predecessor := ⟨"split"⟩, outcome := ⟨"ok"⟩, target := .node ⟨"build"⟩ },
       { predecessor := ⟨"split"⟩, outcome := ⟨"ok"⟩, target := .node ⟨"call"⟩ }]
    terminals := [⟨⟨"done"⟩, okOutcome.schema⟩]
    execution := ⟨budget, {}, 4⟩ }

def closure : PinnedFlowDefinitionClosure :=
  ⟨Diamond.reference, [definition, child], by decide +kernel, by decide +kernel, by decide +kernel,
    by decide +kernel⟩

def admitted : AdmittedFlow := { Diamond.admitted with closure := closure }

def validated : ValidatedFlowDefinitionClosure := ⟨closure, Diamond.limits, 5, 2⟩

def childRun : FlowRunId := Diamond.identity 8

/-- A build attempt with the given number and start. -/
def build (number : Nat) (startedAt : Int) : NodeAttemptInput :=
  { Diamond.input "build" .buildCommand number with
    execution := .external okOutcome.schema, startedAt := ⟨startedAt⟩ }

/-- The call ends while the build runs. -/
def called : List FlowCommand :=
  [.dispatch Diamond.root.id (Diamond.input "split" .fanOut 1),
   .complete (Diamond.attemptId 1) Diamond.result,
   .dispatch Diamond.root.id (Diamond.input "call" .subflowCall 2),
   .call (Diamond.attemptId 2) childRun,
   .dispatch Diamond.root.id (build 3 1),
   .dispatch childRun { Diamond.input "work" .join 1 with id := Diamond.attemptId 11 },
   .complete (Diamond.attemptId 11) Diamond.result,
   .complete (Diamond.attemptId 2) { Diamond.result with outcome := ⟨"done"⟩ }]

/-- The build fails and is repeated. -/
def repeated : List FlowCommand :=
  [.stop (Diamond.attemptId 3) Diamond.owner .executionFailed ⟨6⟩ {},
   .retry (Diamond.attemptId 3) (build 4 7)]

def history : FlowRuntimeHistory :=
  (FlowInterpreter.run ⟨validated⟩ FlowInterpreter.everyStep Diamond.root
    (called ++ repeated)).getD (FlowRuntimeHistory.start Diamond.root)

/-- The two build attempts are one chain of retries. -/
theorem repeated_build_in_sequence : CycleSequence history childRun ∧
    ∃ first second, history.attempt? (Diamond.attemptId 3) = some first ∧
      history.attempt? (Diamond.attemptId 4) = some second ∧
      RetrySequence admitted history [first, second] := by
  have hacc : validateFlowRuntimeHistory Diamond.checks admitted history = .ok () := by
    decide +kernel
  obtain ⟨hruns, hchains⟩ := accepted_history_in_sequence hacc
  have hchild : ∃ flow ∈ history.flowRuns, flow.id = childRun := by decide
  obtain ⟨flow, hflow, hid⟩ := hchild
  refine ⟨hid ▸ (hruns flow hflow).1, ?_⟩
  have hfirst : (history.attempt? (Diamond.attemptId 3)).isSome = true := by decide
  have hsnd : ((history.attempt? (Diamond.attemptId 4)).filter fun attempt =>
      attempt.retryOf = some (Diamond.attemptId 3)).isSome = true := by decide
  obtain ⟨first, hfirst⟩ := Option.isSome_iff_exists.mp hfirst
  obtain ⟨second, hsnd⟩ := Option.isSome_iff_exists.mp hsnd
  obtain ⟨hsnd, hretry⟩ := Option.filter_eq_some_iff.mp hsnd
  obtain ⟨hfirstMem, hfirstId⟩ := attempt?_mem hfirst
  obtain ⟨hsecondMem, -⟩ := attempt?_mem hsnd
  refine ⟨first, second, hfirst, hsnd, hchains _ ⟨?_, ?_⟩⟩
  · simp [hfirstMem, hsecondMem]
  · simpa [hfirstId] using hretry

end Nested

end OctaCity.Factory.Flow
