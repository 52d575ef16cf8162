/-
  OctaCity.Factory.Flow.Visits

  How often one Flow Run can attempt a node.  Retries of a dispatch are
  bounded by the node, and whatever is caused by an unexhausted repeat edge
  has its own value of the traversal counter, which never goes back.
-/
import OctaCity.Factory.Flow.RunRoutes
import Mathlib.Combinatorics.Enumerative.DoubleCounting
import Mathlib.Order.Interval.Finset.Nat
import Mathlib.Tactic.Ring

namespace OctaCity.Factory.Flow

open Lib FlowInterpreter
open Finset

/-! ## Attempts and cycles of a Flow Run -/

variable {attempt : NodeAttempt}

namespace FlowRuntimeHistory

def attemptsAt (history : FlowRuntimeHistory) (flow : FlowRunId) (key : FactoryKey) :
    Finset NodeAttempt :=
  history.attempts.toFinset.filter fun attempt => attempt.flowRunId = flow ∧ attempt.nodeKey = key

/-- The attempts that repeat nothing. -/
def dispatchesAt (history : FlowRuntimeHistory) (flow : FlowRunId) (key : FactoryKey) :
    Finset NodeAttempt :=
  (history.attemptsAt flow key).filter fun attempt => attempt.retryOf = none

def cyclesOf (history : FlowRuntimeHistory) (flow : FlowRunId) : Finset WorkflowCycle :=
  history.cycles.toFinset.filter fun cycle => cycle.flowRunId = flow

variable {history : FlowRuntimeHistory} {flow : FlowRunId} {key : FactoryKey}

theorem mem_attemptsAt : attempt ∈ history.attemptsAt flow key ↔
      attempt ∈ history.attempts ∧ attempt.flowRunId = flow ∧ attempt.nodeKey = key := by
  unfold attemptsAt
  rw [mem_filter, List.mem_toFinset]

theorem mem_dispatchesAt : attempt ∈ history.dispatchesAt flow key ↔
      (attempt ∈ history.attempts ∧ attempt.flowRunId = flow ∧ attempt.nodeKey = key) ∧
        attempt.retryOf = none := by
  unfold dispatchesAt
  rw [mem_filter, mem_attemptsAt]

theorem mem_cyclesOf {cycle : WorkflowCycle} :
    cycle ∈ history.cyclesOf flow ↔ cycle ∈ history.cycles ∧ cycle.flowRunId = flow := by
  unfold cyclesOf
  rw [mem_filter, List.mem_toFinset]

/-- What a bounded chain of retries looks like at its end. -/
theorem retriesWithin_iff {maximum : Nat} :
    history.retriesWithin maximum attempt = true ↔ attempt.retryOf = none ∨
      ∃ parent previous rest, attempt.retryOf = some parent ∧
        history.attempt? parent = some previous ∧ maximum = rest + 1 ∧
        history.retriesWithin rest previous = true := by
  rw [retriesWithin]
  cases hretry : attempt.retryOf with
  | none => simp
  | some parent =>
    cases maximum with
    | zero => simp
    | succ maximum =>
      cases hfind : history.attempt? parent with
      | none => simp [hfind]
      | some previous => simp [hfind]

end FlowRuntimeHistory

open FlowRuntimeHistory
section Visits

variable {validated : ValidatedFlowDefinitionClosure} {root : FlowRun}
  {history : FlowRuntimeHistory} {flow : FlowRun} {definition : FlowDefinition}

/-! ## Retries -/

variable {key : FactoryKey} {left right predecessor : NodeAttempt}
  {leftResult rightResult : NodeAttemptCompletion} {transition : FlowTransition}

theorem RunRows.retriesWithin_card_le (h : RunRows validated root history) (maximum : Nat) :
    ((history.attemptsAt flow.id key).filter fun attempt =>
      history.retriesWithin maximum attempt = true).card ≤
        (maximum + 1) * (history.dispatchesAt flow.id key).card := by
  induction maximum with
  | zero =>
    rw [Nat.zero_add, Nat.one_mul]
    refine card_le_card fun attempt hatt => ?_
    obtain ⟨hmem, hwith⟩ := mem_filter.mp hatt
    rcases retriesWithin_iff.mp hwith with
      hnone | ⟨_, _, _, -, -, hzero, -⟩
    · exact mem_filter.mpr ⟨hmem, hnone⟩
    · cases hzero
  | succ maximum ih =>
    -- A retried attempt is found by the one it repeats, which is a retry less deep.
    let retried := (history.attemptsAt flow.id key).filter fun attempt =>
      attempt.retryOf ≠ none ∧ history.retriesWithin (maximum + 1) attempt = true
    have hsplit : ((history.attemptsAt flow.id key).filter fun attempt =>
        history.retriesWithin (maximum + 1) attempt = true) ⊆
          history.dispatchesAt flow.id key ∪ retried := by
      intro attempt hatt
      obtain ⟨hmem, hwith⟩ := mem_filter.mp hatt
      rw [mem_union]
      by_cases hnone : attempt.retryOf = none
      · exact Or.inl (mem_filter.mpr ⟨hmem, hnone⟩)
      · exact Or.inr (mem_filter.mpr ⟨hmem, hnone, hwith⟩)
    have hretr : retried.card ≤ ((history.attemptsAt flow.id key).filter fun attempt =>
        history.retriesWithin maximum attempt = true).card := by
      refine card_le_card_of_forall_subsingleton
        (fun attempt previous => attempt.retryOf = some previous.id) ?_ ?_
      · intro attempt hatt
        obtain ⟨hmem, hsome, hwith⟩ := mem_filter.mp hatt
        obtain ⟨hin, hflow, hkey⟩ := mem_attemptsAt.mp hmem
        rcases retriesWithin_iff.mp hwith with
          hnone | ⟨parent, previous, rest, hretry, hfind, hrest, hprev⟩
        · exact absurd hnone hsome
        · cases hrest
          obtain ⟨hpreviousMem, hid⟩ := (attempt?_eq_some h.attempts).mp hfind
          obtain ⟨row, hrow, hrowId, hagain⟩ := (h.retry attempt hin parent hretry).lineage
          have hsame := h.attempt_unique hrow hpreviousMem (by rw [hrowId, hid])
          subst hsame
          obtain ⟨-, hsameFlow, -, hsameKey, -⟩ := NodeAttempt.withRetryOf_eq_ok hagain
          refine ⟨row, mem_filter.mpr ⟨?_, hprev⟩, by rw [hretry, hid]⟩
          exact mem_attemptsAt.mpr
            ⟨hrow, by rw [← hsameFlow, hflow], by rw [← hsameKey, hkey]⟩
      · rintro previous - left ⟨hleft, hleftOf⟩ right ⟨hright, hrightOf⟩
        have hin : ∀ attempt ∈ retried, attempt ∈ history.attempts := fun attempt hatt =>
          (mem_attemptsAt.mp (mem_filter.mp hatt).1).1
        exact h.retried left (hin left hleft) right (hin right hright) previous.id hleftOf hrightOf
    calc _ ≤ (history.dispatchesAt flow.id key ∪ retried).card := card_le_card hsplit
      _ ≤ (history.dispatchesAt flow.id key).card + retried.card := card_union_le _ _
      _ ≤ (history.dispatchesAt flow.id key).card +
          (maximum + 1) * (history.dispatchesAt flow.id key).card := by
        exact Nat.add_le_add_left (hretr.trans ih) _
      _ = (maximum + 1 + 1) * (history.dispatchesAt flow.id key).card := by ring

/-- Each dispatch of a node is repeated at most as often as the node allows. -/
theorem RunRows.attemptsAt_card_le (h : RunRows validated root history)
    (hflow : flow ∈ history.flowRuns)
    (hdef : validated.closure.definition flow.definition = some definition)
    {node : FlowNodeDefinition} (hnode : definition.node key = some node) :
    (history.attemptsAt flow.id key).card ≤
      (1 + node.maxExecutionRetries) * (history.dispatchesAt flow.id key).card := by
  have hall : history.attemptsAt flow.id key ⊆ (history.attemptsAt flow.id key).filter
      fun attempt => history.retriesWithin node.maxExecutionRetries attempt = true := by
    intro attempt hatt
    obtain ⟨hin, howner, hkey⟩ := mem_attemptsAt.mp hatt
    refine mem_filter.mpr ⟨hatt, ?_⟩
    cases hretry : attempt.retryOf with
    | none => exact retriesWithin_iff.mpr (Or.inl hretry)
    | some parent =>
      obtain ⟨run, hrun, found, declared, hid, hfound, hdecl, hwith⟩ :=
        (h.retry attempt hin parent hretry).bounded
      have hsame := h.run_unique hrun hflow (by rw [hid, howner])
      subst hsame
      rw [hdef] at hfound
      cases hfound
      rw [hkey, hnode] at hdecl
      cases hdecl
      exact hwith
  rw [Nat.add_comm 1]
  exact (card_le_card hall).trans (h.retriesWithin_card_le node.maxExecutionRetries)

/-! ## Repeat traversals -/

/-- All repeats the edges of a definition allow together. -/
def FlowDefinition.repeatTotal (definition : FlowDefinition) : Nat :=
  (definition.transitions.map (·.maxRepeats)).sum

/-- A repeat edge with a value of its traversal counter. -/
def FlowDefinition.repeatSlots (definition : FlowDefinition) :
    Finset ((_ : FlowTransition) × Nat) :=
  definition.transitions.toFinset.sigma fun transition => Icc 1 transition.maxRepeats

theorem FlowDefinition.repeatSlots_card_le (definition : FlowDefinition) :
    definition.repeatSlots.card ≤ definition.repeatTotal := by
  unfold repeatSlots repeatTotal
  rw [card_sigma]
  simp only [Nat.card_Icc, Nat.add_sub_cancel]
  exact sum_toFinset_le definition.transitions (·.maxRepeats)

/-- The attempt's result leaves through the transition. -/
structure Takes (definition : FlowDefinition) (history : FlowRuntimeHistory)
    (producer : NodeAttempt) (completion : NodeAttemptCompletion) (transition : FlowTransition) :
    Prop where
  mem : producer ∈ history.attempts
  completed : CompletedBy history producer completion
  declared : transition ∈ definition.transitions
  routes : transition.routes producer.nodeKey completion.outcome = true

/-- The value of the traversal counter when the result was produced. -/
def FlowRuntimeHistory.traversal (history : FlowRuntimeHistory) (producer : NodeAttempt)
    (completion : NodeAttemptCompletion) : Nat :=
  history.countThrough producer.flowRunId producer.nodeKey completion.outcome producer.number

theorem Takes.unique (h : RunRows validated root history)
    (hleft : Takes definition history left leftResult transition)
    (hright : Takes definition history right rightResult transition)
    (hflow : left.flowRunId = right.flowRunId)
    (hcount : history.traversal left leftResult = history.traversal right rightResult) :
    left = right := by
  have hleftRoute := hleft.routes
  have hrightRoute := hright.routes
  simp only [FlowTransition.routes, decide_eq_true_eq] at hleftRoute hrightRoute
  have hkey : left.nodeKey = right.nodeKey := by rw [← hleftRoute.1, ← hrightRoute.1]
  have hout : leftResult.outcome = rightResult.outcome := by
    rw [← hleftRoute.2, ← hrightRoute.2]
  unfold traversal at hcount
  rcases lt_trichotomy left.number right.number with hlt | heq | hgt
  · have := h.countThrough_lt hright.mem hright.completed hflow hkey hout hlt
    omega
  · exact h.number_unique hleft.mem hright.mem hflow heq
  · have := h.countThrough_lt hleft.mem hleft.completed hflow.symm hkey.symm hout.symm hgt
    omega

/-- What is caused by repeat edges is limited by them, when each cause has one
    effect. -/
theorem RunRows.card_le_repeatTotal (h : RunRows validated root history) (run : FlowRunId)
    {α : Type} {effects : Finset α} (causes : α → NodeAttempt → Prop)
    (hcaused : ∀ effect ∈ effects, ∃ producer completion transition, causes effect producer ∧
      producer.flowRunId = run ∧ Takes definition history producer completion transition ∧
      history.traversal producer completion ≤ transition.maxRepeats)
    (honce : ∀ left ∈ effects, ∀ right ∈ effects, ∀ producer, causes left producer →
      causes right producer → left = right) : effects.card ≤ definition.repeatTotal := by
  refine le_trans ?_ definition.repeatSlots_card_le
  refine card_le_card_of_forall_subsingleton
    (fun effect slot => ∃ producer completion, causes effect producer ∧
      producer.flowRunId = run ∧ Takes definition history producer completion slot.1 ∧
      history.traversal producer completion = slot.2) ?_ ?_
  · intro effect heffect
    obtain ⟨producer, completion, transition, hcauses, hflow, htakes, hle⟩ :=
      hcaused effect heffect
    refine ⟨⟨transition, history.traversal producer completion⟩, ?_, producer, completion, hcauses,
      hflow, htakes, rfl⟩
    have hpos := h.countThrough_pos htakes.mem htakes.completed
    exact mem_sigma.mpr ⟨List.mem_toFinset.mpr htakes.declared,
      mem_Icc.mpr ⟨hpos, hle⟩⟩
  · rintro slot - left ⟨hleft, producer, completion, hcauses, hflow, htakes, hcount⟩ right
      ⟨hright, producer', completion', hcauses', hflow', htakes', hcount'⟩
    have hsame := htakes.unique h htakes' (by rw [hflow, hflow']) (by rw [hcount, hcount'])
    subst hsame
    exact honce left hleft right hright producer hcauses hcauses'

/-! ## Cycles -/

theorem RunRows.traversal_le_prefixTraversals (h : RunRows validated root history) {cycle : WorkflowCycle}
    {source : NodeAttempt} (hsrc : source ∈ history.attempts)
    (hflow : source.flowRunId = flow.id) (hcycle : source.workflowCycleId = cycle.id)
    (completion : NodeAttemptCompletion) : history.traversal source completion ≤
      prefixTraversals history flow cycle source.nodeKey completion.outcome := by
  unfold traversal countThrough prefixTraversals
  refine List.countP_mono_left fun row hrow hcnt => ?_
  obtain ⟨owner, howner, hid, -⟩ := h.completion_attempt hrow
  have hby := h.completedBy howner hrow hid.symm
  rw [decide_eq_true_eq, h.countThrough_pred hby howner] at hcnt
  obtain ⟨hoflow, hownerKey, hout, hle⟩ := hcnt
  rw [decide_eq_true_eq, hby.flow, hby.key]
  refine ⟨by rw [hoflow, hflow], ?_, hownerKey, hout⟩
  rw [List.any_eq_true]
  refine ⟨owner, howner, ?_⟩
  rw [decide_eq_true_eq]
  exact ⟨hid, belowCeiling_iff.mpr ⟨source, hsrc, hcycle, hle⟩⟩

/-- A Flow Run has its initial cycle and at most one for each repeat. -/
theorem Driven.cyclesOf_card_le (h : Driven validated root history)
    (hflow : flow ∈ history.flowRuns)
    (hdef : validated.closure.definition flow.definition = some definition) :
    (history.cyclesOf flow.id).card ≤ 1 + definition.repeatTotal := by
  let restarted := (history.cyclesOf flow.id).filter fun cycle => cycle.predecessor ≠ none
  have hsplit : history.cyclesOf flow.id ⊆ {WorkflowCycle.initial flow} ∪ restarted := by
    intro cycle hcycle
    obtain ⟨hmem, howner⟩ := mem_cyclesOf.mp hcycle
    rw [mem_union, mem_singleton]
    by_cases hnone : cycle.predecessor = none
    · obtain ⟨run, hrun, rfl⟩ := (h.rows.cycle cycle hmem).initial hnone
      exact Or.inl (by rw [h.rows.run_unique hrun hflow howner])
    · exact Or.inr (mem_filter.mpr ⟨hcycle, hnone⟩)
  have hrestarted : restarted.card ≤ definition.repeatTotal := by
    refine h.rows.card_le_repeatTotal flow.id
      (fun cycle source => cycle.predecessor = some source.workflowCycleId) ?_ ?_
    · intro cycle hcycle
      obtain ⟨hof, hsome⟩ := mem_filter.mp hcycle
      obtain ⟨hmem, howner⟩ := mem_cyclesOf.mp hof
      obtain ⟨key, hfixed⟩ := h.routes.entries flow hflow definition hdef cycle hmem howner
      cases hfixed with
      | initial hnone => exact absurd hnone hsome
      | @restarted previous source cause hprev hpown hpred hsrc hfixed =>
        obtain ⟨⟨hin, hscyc, hsflow⟩, ⟨-, -, completion, hcomp, edge, hedge, -,
          hroute, hcount, -⟩, -⟩ := hfixed.first
        obtain ⟨hcompletionMem, hid⟩ := (completion?_eq_some h.rows.completed).mp hcomp
        refine ⟨source, completion, edge, by rw [hpred, hscyc], hsflow,
          ⟨hin, h.rows.completedBy hin hcompletionMem hid, hedge, hroute⟩, ?_⟩
        exact (h.rows.traversal_le_prefixTraversals hin hsflow hscyc completion).trans hcount
    · intro left hleft right hright source hleftOf hrightOf
      have hin : ∀ cycle ∈ restarted, cycle ∈ history.cycles := fun cycle hcycle =>
        (mem_cyclesOf.mp (mem_filter.mp hcycle).1).1
      exact h.rows.successors left (hin left hleft) right (hin right hright) _ hleftOf hrightOf
  calc _ ≤ ({WorkflowCycle.initial flow} ∪ restarted).card := card_le_card hsplit
    _ ≤ ({WorkflowCycle.initial flow} : Finset WorkflowCycle).card + restarted.card :=
      card_union_le _ _
    _ ≤ 1 + definition.repeatTotal := by
      rw [card_singleton]
      exact Nat.add_le_add_left hrestarted 1

/-! ## Dispatches -/

/-- The transition leads to the node without using up a repeat. -/
def FlowTransition.leadsOn (transition : FlowTransition) (key : FactoryKey) : Bool :=
  (transition.maxRepeats = 0 ∧ transition.target = .node key) ∨ transition.exhaustedNode = some key

/-- A selected node is led on to or costs a repeat. -/
theorem FlowTransition.selectedNode_cases {traversals : Nat}
    (h : transition.selectedNode traversals = some key) :
    transition.leadsOn key = true ∨ traversals ≤ transition.maxRepeats := by
  unfold FlowTransition.selectedNode FlowTransition.isExhausted at h
  unfold FlowTransition.leadsOn
  rw [decide_eq_true_eq]
  split at h
  · exact Or.inl (Or.inr h)
  · rename_i hexh
    simp only [decide_eq_true_eq, not_and, not_lt] at hexh
    by_cases hzero : transition.maxRepeats = 0
    · refine Or.inl (Or.inl ⟨hzero, ?_⟩)
      cases htgt : transition.target with
      | node target =>
        rw [htgt] at h
        rw [Option.some.inj h]
      | terminal _ =>
        rw [htgt] at h
        cases h
    · exact Or.inr (hexh (Nat.pos_of_ne_zero hzero))

theorem Follows.takes {completion : NodeAttemptCompletion}
    (h : Follows definition history attempt predecessor completion transition) :
    Takes definition history predecessor completion transition :=
  ⟨h.mem, h.completed, h.declared, h.routes⟩

/-- An attempt sends the run to a node once. -/
theorem Follows.unique (hrows : RunRows validated root history)
    {leftEdge rightEdge : FlowTransition} (hleft : left ∈ history.attempts)
    (hright : right ∈ history.attempts) (hflow : left.flowRunId = right.flowRunId)
    (hkey : left.nodeKey = right.nodeKey)
    (hleftFollows : Follows definition history left predecessor leftResult leftEdge)
    (hrightFollows : Follows definition history right predecessor rightResult rightEdge) :
    left = right := by
  refine hrows.number_unique hleft hright hflow (le_antisymm ?_ ?_)
  · exact hleftFollows.next right hright hflow.symm hkey.symm hrightFollows.earlier
  · exact hrightFollows.next left hleft hflow hkey hleftFollows.earlier

section

variable (h : Driven validated root history)

include h

/-- A cycle is opened by one dispatch. -/
theorem Driven.entered_card_le {entered : Finset NodeAttempt}
    (hsub : entered ⊆ history.dispatchesAt flow.id key)
    (henters : ∀ attempt ∈ entered, Enters definition history flow attempt) :
    entered.card ≤ (history.cyclesOf flow.id).card := by
  refine card_le_card_of_forall_subsingleton
    (fun attempt cycle => attempt.workflowCycleId = cycle.id) ?_ ?_
  · intro attempt hatt
    obtain ⟨cycle, hcycle, hid, howner, -⟩ := (henters attempt hatt).entry
    exact ⟨cycle, mem_cyclesOf.mpr ⟨hcycle, howner⟩, hid.symm⟩
  · rintro cycle - left ⟨hleft, hleftCycle⟩ right ⟨hright, hrightCycle⟩
    obtain ⟨⟨hleftMem, hleftFlow, -⟩, -⟩ := mem_dispatchesAt.mp (hsub hleft)
    obtain ⟨⟨hrightMem, hrightFlow, -⟩, -⟩ := mem_dispatchesAt.mp (hsub hright)
    have hcycs : left.workflowCycleId = right.workflowCycleId := by rw [hleftCycle, hrightCycle]
    have hflows : left.flowRunId = right.flowRunId := by rw [hleftFlow, hrightFlow]
    exact h.rows.number_unique hleftMem hrightMem hflows (le_antisymm
      ((henters left hleft).first right hrightMem hflows.symm hcycs.symm)
      ((henters right hright).first left hleftMem hflows hcycs))

/-- The dispatches of a node follow different attempts. -/
theorem Driven.follows_unique {leftEdge rightEdge : FlowTransition}
    (hleft : left ∈ history.dispatchesAt flow.id key)
    (hright : right ∈ history.dispatchesAt flow.id key)
    (hleftFollows : Follows definition history left predecessor leftResult leftEdge)
    (hrightFollows : Follows definition history right predecessor rightResult rightEdge) :
    left = right := by
  obtain ⟨⟨hleftMem, hleftFlow, hleftKey⟩, -⟩ := mem_dispatchesAt.mp hleft
  obtain ⟨⟨hrightMem, hrightFlow, hrightKey⟩, -⟩ := mem_dispatchesAt.mp hright
  exact hleftFollows.unique h.rows hleftMem hrightMem (by rw [hleftFlow, hrightFlow])
    (by rw [hleftKey, hrightKey]) hrightFollows

/-- Dispatches that cost a repeat are limited by the repeats. -/
theorem Driven.repeated_card_le {repeated : Finset NodeAttempt}
    (hsub : repeated ⊆ history.dispatchesAt flow.id key)
    (hfol : ∀ attempt ∈ repeated, ∃ predecessor completion transition,
      Follows definition history attempt predecessor completion transition ∧
      history.traversal predecessor completion ≤ transition.maxRepeats) :
    repeated.card ≤ definition.repeatTotal := by
  refine h.rows.card_le_repeatTotal flow.id (fun attempt predecessor =>
    ∃ completion transition, Follows definition history attempt predecessor completion transition)
    ?_ ?_
  · intro attempt hatt
    obtain ⟨predecessor, completion, transition, hby, hle⟩ := hfol attempt hatt
    obtain ⟨⟨-, howner, -⟩, -⟩ := mem_dispatchesAt.mp (hsub hatt)
    exact ⟨predecessor, completion, transition, ⟨completion, transition, hby⟩,
      by rw [hby.flow, howner], hby.takes, hle⟩
  · rintro left hleft right hright predecessor ⟨_, _, hleftBy⟩ ⟨_, _, hrightBy⟩
    exact h.follows_unique (hsub hleft) (hsub hright) hleftBy hrightBy

/-- Dispatches that are led on to are limited by the attempts before them. -/
theorem Driven.led_card_le {led : Finset NodeAttempt}
    (hsub : led ⊆ history.dispatchesAt flow.id key)
    (hfol : ∀ attempt ∈ led, ∃ predecessor completion transition,
      Follows definition history attempt predecessor completion transition ∧
      transition.leadsOn key = true) :
    led.card ≤ ∑ transition ∈ definition.transitions.toFinset.filter (·.leadsOn key = true),
      (history.attemptsAt flow.id transition.predecessor).card := by
  rw [← card_sigma]
  refine card_le_card_of_forall_subsingleton
    (fun attempt source => ∃ completion transition,
      Follows definition history attempt source.2 completion transition) ?_ ?_
  · intro attempt hatt
    obtain ⟨predecessor, completion, transition, hby, hleads⟩ := hfol attempt hatt
    obtain ⟨⟨-, howner, -⟩, -⟩ := mem_dispatchesAt.mp (hsub hatt)
    refine ⟨⟨transition, predecessor⟩, mem_sigma.mpr ⟨?_, ?_⟩, completion, transition, hby⟩
    · exact mem_filter.mpr ⟨List.mem_toFinset.mpr hby.declared, hleads⟩
    · have hroutes := hby.routes
      simp only [FlowTransition.routes, decide_eq_true_eq] at hroutes
      exact mem_attemptsAt.mpr ⟨hby.mem, by rw [hby.flow, howner],
        hroutes.1.symm⟩
  · rintro source - left ⟨hleft, _, _, hleftBy⟩ right ⟨hright, _, _, hrightBy⟩
    exact h.follows_unique (hsub hleft) (hsub hright) hleftBy hrightBy

/-- A dispatch opens a cycle, costs a repeat, or is led on to from an attempt of
    a preceding node. -/
theorem Driven.dispatchesAt_card_le (hflow : flow ∈ history.flowRuns)
    (hdef : validated.closure.definition flow.definition = some definition) (key : FactoryKey) :
    (history.dispatchesAt flow.id key).card ≤ 1 + 2 * definition.repeatTotal +
      ∑ transition ∈ definition.transitions.toFinset.filter (·.leadsOn key = true),
        (history.attemptsAt flow.id transition.predecessor).card := by
  classical
  let entered := (history.dispatchesAt flow.id key).filter (Enters definition history flow)
  let repeated := (history.dispatchesAt flow.id key).filter fun attempt =>
    ∃ predecessor completion transition,
      Follows definition history attempt predecessor completion transition ∧
      history.traversal predecessor completion ≤ transition.maxRepeats
  let led := (history.dispatchesAt flow.id key).filter fun attempt =>
    ∃ predecessor completion transition,
      Follows definition history attempt predecessor completion transition ∧
      transition.leadsOn key = true
  have hsplit : history.dispatchesAt flow.id key ⊆ entered ∪ (repeated ∪ led) := by
    intro attempt hatt
    obtain ⟨⟨hmem, howner, hkey⟩, hfirst⟩ := mem_dispatchesAt.mp hatt
    simp only [entered, repeated, led, mem_union, mem_filter]
    rcases h.routes.routes flow hflow definition hdef attempt hmem howner hfirst with
      henters | ⟨predecessor, completion, transition, hfol⟩
    · exact Or.inl ⟨hatt, henters⟩
    · have hsels := hfol.selects
      rw [hkey] at hsels
      rcases FlowTransition.selectedNode_cases hsels with hled | hle
      · exact Or.inr (Or.inr ⟨hatt, predecessor, completion, transition, hfol, hled⟩)
      · exact Or.inr (Or.inl ⟨hatt, predecessor, completion, transition, hfol, hle⟩)
  have hentered : entered.card ≤ (history.cyclesOf flow.id).card :=
    h.entered_card_le (filter_subset _ _)
      fun attempt hatt => (mem_filter.mp hatt).2
  have hrepeated : repeated.card ≤ definition.repeatTotal :=
    h.repeated_card_le (filter_subset _ _)
      fun attempt hatt => (mem_filter.mp hatt).2
  have hled : led.card ≤ ∑ transition ∈ definition.transitions.toFinset.filter
      (·.leadsOn key = true), (history.attemptsAt flow.id transition.predecessor).card :=
    h.led_card_le (filter_subset _ _)
      fun attempt hatt => (mem_filter.mp hatt).2
  have hcycs := h.cyclesOf_card_le hflow hdef
  have htotal := (card_le_card hsplit).trans (card_union_le _ _)
  have hrest := card_union_le repeated led
  omega

end

end Visits

end OctaCity.Factory.Flow
