/-
  OctaCity.Factory.Flow.Directives

  What the control directives of a completed attempt say, and when they exist.
  `Selects` is the one relation between a completed attempt and the
  transitions it leaves through; everything the interpreter reports is
  described by it.
-/
import OctaCity.Factory.Flow.Interpreter
import OctaCity.Factory.Flow.Admission

namespace OctaCity.Factory.Flow

open Lib List Option

/-! ## Directives -/

namespace FlowDirective

/-- The node of a same-cycle directive. -/
def node? : FlowDirective → Option FactoryKey
  | .executeNode _ node _ _ => some node
  | .enterSubflow node _ _ => some node
  | _ => none

def restart? : FlowDirective → Option (FactoryKey × NodeAttemptId)
  | .restartCycle node source => some (node, source)
  | _ => none

def isComplete : FlowDirective → Bool
  | .complete _ _ => true
  | _ => false

end FlowDirective

variable {transition : FlowTransition} {key : FactoryKey} {definition : FlowDefinition}

theorem FlowTransition.selectedNode_mem {traversals : Nat}
    (h : transition.selectedNode traversals = some key) : key ∈ transition.nodeTargets := by
  unfold FlowTransition.selectedNode at h
  unfold FlowTransition.nodeTargets
  split at h
  · simp [h]
  · simp [h]

theorem FlowDefinition.terminal_of_hasTerminal
    {schema : ImmutableReference} (h : definition.hasTerminal key schema = true) :
    ∃ terminal, (definition.terminals.find? (·.key = key)).filter
      (fun terminal => terminal.schema = schema) = some terminal := by
  unfold FlowDefinition.hasTerminal at h
  split at h
  · rename_i terminal hfind
    refine ⟨terminal, ?_⟩
    rw [hfind, filter_some, if_pos h]
  · cases h

namespace FlowInterpreter

/-- A completed attempt leaves through the transition, which selects a node
    or, as `none`, a terminal at the current traversal count. -/
def Selects (definition : FlowDefinition) (history : FlowRuntimeHistory) (flow : FlowRunId)
    (attempt : NodeAttempt) (transition : FlowTransition) (selected : Option FactoryKey) : Prop :=
  transition ∈ definition.transitions ∧ ∃ completion,
    history.completion? attempt.id = some completion ∧
    transition.routes attempt.nodeKey completion.outcome = true ∧
    transition.selectedNode (history.traversals flow attempt.nodeKey completion.outcome) = selected

/-- The attempt's result selects the node within the cycle. -/
def Offers (definition : FlowDefinition) (history : FlowRuntimeHistory) (flow : FlowRunId)
    (attempt : NodeAttempt) (key : FactoryKey) : Prop :=
  ∃ transition, transition.startsCycle = false ∧
    Selects definition history flow attempt transition (some key)

/-- The attempt's result selects a new cycle that starts with the node. -/
def Restarts (definition : FlowDefinition) (history : FlowRuntimeHistory) (flow : FlowRunId)
    (attempt : NodeAttempt) (key : FactoryKey) : Prop :=
  ∃ transition, transition.startsCycle = true ∧
    Selects definition history flow attempt transition (some key)

def Ends (definition : FlowDefinition) (history : FlowRuntimeHistory) (flow : FlowRunId)
    (attempt : NodeAttempt) : Prop :=
  ∃ transition, Selects definition history flow attempt transition none

theorem directiveForNode_eq_ok {inputs : FlowDirectiveInputs} {directive : FlowDirective}
    (h : directiveForNode definition key inputs = .ok directive) :
    directive.node? = some key ∧ directive.restart? = none ∧ directive.isComplete = false := by
  unfold directiveForNode at h
  obtain ⟨node, -, h⟩ := bind_eq_ok.mp h
  split at h <;> cases h <;> exact ⟨rfl, rfl, rfl⟩

variable {attempt : NodeAttempt} {completion : NodeAttemptCompletion}
  {declared : FlowOutcomeDefinition} {directives : List FlowDirective}

/-- A transition's directive is of the kind the selection calls for. -/
theorem transitionDirective_cases {traversals : Nat} {directive : FlowDirective}
    (h : transitionDirective definition attempt completion declared traversals transition =
      .ok directive) :
    (∃ key, transition.selectedNode traversals = some key ∧ transition.startsCycle = true ∧
      directive = .restartCycle key attempt.id) ∨
    (∃ key, transition.selectedNode traversals = some key ∧ transition.startsCycle = false ∧
      directive.node? = some key ∧ directive.restart? = none ∧ directive.isComplete = false) ∨
    (transition.selectedNode traversals = none ∧
      ∃ terminal digest, directive = .complete terminal digest) := by
  unfold transitionDirective at h
  split at h
  · rename_i key hkey
    split at h
    · rename_i hstart
      exact Or.inl ⟨key, hkey, hstart, (Except.ok.inj h).symm⟩
    · rename_i hstart
      exact Or.inr (Or.inl ⟨key, hkey, by simpa using hstart, directiveForNode_eq_ok h⟩)
  · rename_i hnone
    refine Or.inr (Or.inr ⟨hnone, ?_⟩)
    dsimp only at h
    split at h
    · rename_i terminal _
      exact ⟨terminal.key, terminal.schema.digest, (Except.ok.inj h).symm⟩
    · cases h

variable {interpreter : FlowInterpreter} {flow : FlowRun} {cycle : WorkflowCycle}
  {history : FlowRuntimeHistory} {definition : FlowDefinition}

theorem definition_eq_ok : interpreter.definition flow = .ok definition ↔
      interpreter.validated.closure.definition flow.definition = some definition := by
  unfold FlowInterpreter.definition
  rw [okOr_eq_ok]

/-- The directives of an attempt; none before it is completed. -/
def attemptDirectives (interpreter : FlowInterpreter) (flow : FlowRun) (cycle : WorkflowCycle)
    (history : FlowRuntimeHistory) (attempt : NodeAttempt) :
    Except FactoryError (List FlowDirective) :=
  match history.completion? attempt.id with
  | none => .ok []
  | some completion => interpreter.controlDirectives flow cycle attempt completion history

theorem scanAttempt_eq (attempts : List NodeAttempt) (scan : Scan) (attempt : NodeAttempt) :
    interpreter.scanAttempt flow cycle history attempts scan attempt =
      interpreter.attemptDirectives flow cycle history attempt >>= fun directives =>
        .ok (directives.foldl (Scan.apply attempts attempt) scan) := by
  unfold scanAttempt attemptDirectives
  cases history.completion? attempt.id <;> rfl

/-- What the directives of one attempt say. -/
structure DirectivesSpec (definition : FlowDefinition) (history : FlowRuntimeHistory)
    (flow : FlowRunId) (attempt : NodeAttempt) (directives : List FlowDirective) : Prop where
  node : ∀ key, (∃ directive ∈ directives, directive.node? = some key) ↔
    Offers definition history flow attempt key
  restart : ∀ key source, (∃ directive ∈ directives, directive.restart? = some (key, source)) ↔
    source = attempt.id ∧ Restarts definition history flow attempt key
  ends : (∃ directive ∈ directives, directive.isComplete = true) ↔
    Ends definition history flow attempt
  leaves : ∀ completion, history.completion? attempt.id = some completion →
    ∃ transition selected, Selects definition history flow attempt transition selected

/-- Each directive comes from a transition of the attempt, and conversely. -/
theorem controlDirectives_eq_ok
    (hdef : interpreter.validated.closure.definition flow.definition = some definition)
    (h : interpreter.controlDirectives flow cycle attempt completion history = .ok directives) :
    ∃ declared, (definition.transitions.filter (·.routes attempt.nodeKey completion.outcome)) ≠ [] ∧
      List.Forall₂ (fun transition directive =>
        transitionDirective definition attempt completion declared
          (history.traversals flow.id attempt.nodeKey completion.outcome) transition =
            .ok directive)
        (definition.transitions.filter (·.routes attempt.nodeKey completion.outcome))
        directives := by
  unfold controlDirectives at h
  obtain ⟨found, hfound, h⟩ := bind_eq_ok.mp h
  rw [definition_eq_ok, hdef] at hfound
  cases hfound
  obtain ⟨-, h⟩ := guard_eq_ok.mp h
  obtain ⟨node, -, h⟩ := bind_eq_ok.mp h
  obtain ⟨declared, -, h⟩ := bind_eq_ok.mp h
  obtain ⟨_, -, h⟩ := bind_eq_ok.mp h
  dsimp only at h
  obtain ⟨hne, h⟩ := guard_eq_ok.mp h
  exact ⟨declared, by simpa using hne, mapM_eq_ok.mp h⟩

/-- Directives and the transitions they come from, told apart by whatever the
    selection decides about a directive. -/
theorem exists_directive_iff (hcomp : history.completion? attempt.id = some completion)
    (hall : List.Forall₂ (fun transition directive =>
        transitionDirective definition attempt completion declared
          (history.traversals flow.id attempt.nodeKey completion.outcome) transition =
            .ok directive)
      (definition.transitions.filter (·.routes attempt.nodeKey completion.outcome)) directives)
    {P : FlowDirective → Prop} {Q : FlowTransition → Option FactoryKey → Prop}
    (hkind : ∀ transition directive, transitionDirective definition attempt completion declared
        (history.traversals flow.id attempt.nodeKey completion.outcome) transition = .ok directive →
      (P directive ↔ Q transition (transition.selectedNode
        (history.traversals flow.id attempt.nodeKey completion.outcome)))) :
    (∃ directive ∈ directives, P directive) ↔ ∃ transition selected,
      Q transition selected ∧ Selects definition history flow.id attempt transition selected := by
  constructor
  · rintro ⟨directive, hmem, hdir⟩
    obtain ⟨transition, htrans, hok⟩ := forall₂_exists_left hall hmem
    obtain ⟨hdecl, hroute⟩ := mem_filter.mp htrans
    exact ⟨transition, _, (hkind transition directive hok).mp hdir, hdecl, completion,
      hcomp, hroute, rfl⟩
  · rintro ⟨transition, selected, hsel, hdecl, other, hother, hroute, heq⟩
    rw [hcomp] at hother
    cases hother
    subst heq
    obtain ⟨directive, hdir, hok⟩ :=
      forall₂_exists_right hall (mem_filter.mpr ⟨hdecl, hroute⟩)
    exact ⟨directive, hdir, (hkind transition directive hok).mpr hsel⟩

theorem DirectivesSpec.of_attemptDirectives
    (hdef : interpreter.validated.closure.definition flow.definition = some definition)
    (h : interpreter.attemptDirectives flow cycle history attempt = .ok directives) :
    DirectivesSpec definition history flow.id attempt directives := by
  unfold attemptDirectives at h
  split at h
  · -- Without a completion there is nothing to select.
    rename_i hnone
    cases h
    have hidle : ∀ transition selected,
        ¬ Selects definition history flow.id attempt transition selected := by
      rintro transition selected ⟨-, completion, hsome, -⟩
      rw [hnone] at hsome
      cases hsome
    refine ⟨?_, ?_, ?_, ?_⟩
    · intro key
      simp [Offers, hidle]
    · intro key source
      simp [Restarts, hidle]
    · simp [Ends, hidle]
    · intro completion hsome
      rw [hnone] at hsome
      cases hsome
  · rename_i completion hsome
    obtain ⟨declared, hne, hall⟩ := controlDirectives_eq_ok hdef h
    refine ⟨?_, ?_, ?_, ?_⟩
    · intro key
      -- Same-cycle directives are those of edges that start no cycle.
      rw [exists_directive_iff (Q := fun transition selected =>
        transition.startsCycle = false ∧ selected = some key) hsome hall ?_]
      · unfold Offers
        simp only [and_assoc, exists_and_left, exists_eq_left]
      · intro transition directive hok
        rcases transitionDirective_cases hok with
          ⟨other, hsel, hstart, rfl⟩ | ⟨other, hsel, hstart, hnode, -⟩ |
            ⟨hsel, _, _, rfl⟩
        · simp [FlowDirective.node?, hstart]
        · simp [hnode, hsel, hstart]
        · simp [FlowDirective.node?, hsel]
    · intro key source
      rw [exists_directive_iff (Q := fun transition selected =>
        source = attempt.id ∧ transition.startsCycle = true ∧ selected = some key) hsome hall ?_]
      · unfold Restarts
        simp only [and_assoc, exists_and_left, exists_eq_left]
      · intro transition directive hok
        rcases transitionDirective_cases hok with
          ⟨other, hsel, hstart, rfl⟩ | ⟨other, hsel, hstart, -, hrest, -⟩ |
            ⟨hsel, _, _, rfl⟩
        · simp only [FlowDirective.restart?, hsel, hstart, Option.some.injEq, Prod.mk.injEq,
            true_and]
          exact ⟨fun h => ⟨h.2.symm, h.1⟩, fun h => ⟨h.2, h.1.symm⟩⟩
        · simp [hrest, hstart]
        · simp [FlowDirective.restart?, hsel]
    · rw [exists_directive_iff (Q := fun _ selected => selected = none) hsome hall ?_]
      · unfold Ends
        simp only [exists_eq_left]
      · intro transition directive hok
        rcases transitionDirective_cases hok with
          ⟨other, hsel, -, rfl⟩ | ⟨other, hsel, -, -, -, hcompl⟩ |
            ⟨hsel, _, _, rfl⟩
        · simp [FlowDirective.isComplete, hsel]
        · simp [hcompl, hsel]
        · simp [FlowDirective.isComplete, hsel]
    · intro _ _
      obtain ⟨transition, hmem⟩ := exists_mem_of_ne_nil _ hne
      obtain ⟨hdecl, hroute⟩ := mem_filter.mp hmem
      exact ⟨transition, _, hdecl, completion, hsome, hroute, rfl⟩

/-! ## Totality -/

/-- Admission makes every routed transition of a declared outcome total. -/
theorem transitionDirective_isOk (hsound : SoundDefinition definition) {node : FlowNodeDefinition}
    (hnode : definition.node attempt.nodeKey = some node)
    (hdecl : node.outcome completion.outcome = some declared) (traversals : Nat)
    (hmem : transition ∈ definition.transitions)
    (hroute : transition.routes attempt.nodeKey completion.outcome = true) :
    ∃ directive, transitionDirective definition attempt completion declared traversals
      transition = .ok directive := by
  obtain ⟨hpred, hout⟩ : transition.predecessor = attempt.nodeKey ∧
      transition.outcome = completion.outcome := by
    simpa [FlowTransition.routes] using hroute
  have hterm : ∀ key, (transition.target = .terminal key ∨
      transition.exhaustedTerminal = some key) →
      ∃ terminal, (definition.terminals.find? (·.key = key)).filter
        (fun terminal => terminal.schema = declared.schema) = some terminal := by
    intro key hkey
    refine FlowDefinition.terminal_of_hasTerminal ?_
    exact hsound.terminal transition hmem node (by rw [hpred, hnode]) declared
      (by rw [hout, hdecl]) key hkey
  unfold transitionDirective
  cases hsel : transition.selectedNode traversals with
  | some successor =>
    simp only
    split
    · exact ⟨_, rfl⟩
    · obtain ⟨target, htgt⟩ :=
        hsound.successor transition hmem successor (FlowTransition.selectedNode_mem hsel)
      unfold directiveForNode
      rw [htgt]
      simp only [okOr_some, bind, Except.bind]
      split <;> exact ⟨_, rfl⟩
  | none =>
    unfold FlowTransition.selectedNode at hsel
    by_cases hexh : transition.isExhausted traversals = true
    · -- An exhausted repeat without a gate has a terminal of its own.
      rw [if_pos hexh] at hsel
      have hpos : 0 < transition.maxRepeats := by
        unfold FlowTransition.isExhausted at hexh
        rw [decide_eq_true_eq] at hexh
        exact hexh.1
      obtain ⟨key, hkey⟩ : ∃ key, transition.exhaustedTerminal = some key := by
        cases hroute : transition.exhaustedTerminal with
        | some key => exact ⟨key, rfl⟩
        | none =>
          obtain ⟨gate, hgate⟩ := hsound.exhaustion transition hmem hpos hroute
          rw [hsel] at hgate
          cases hgate
      obtain ⟨terminal, hfound⟩ := hterm key (Or.inr hkey)
      simp only [hexh, if_true, hkey, bind_some, hfound]
      exact ⟨_, rfl⟩
    · rw [if_neg hexh] at hsel
      obtain ⟨key, hkey⟩ : ∃ key, transition.target = .terminal key := by
        cases htgt : transition.target with
        | terminal key => exact ⟨key, rfl⟩
        | node key =>
          rw [htgt] at hsel
          cases hsel
      obtain ⟨terminal, hfound⟩ := hterm key (Or.inl hkey)
      simp only [hexh, Bool.false_eq_true, if_false, hkey, bind_some, hfound]
      exact ⟨_, rfl⟩

/-- The rows of a completed attempt of the cycle agree with each other and
    with the node's declaration. -/
structure BoundCompletion (definition : FlowDefinition) (flow : FlowRun) (cycle : WorkflowCycle)
    (attempt : NodeAttempt) (completion : NodeAttemptCompletion) : Prop where
  cycle_flow : cycle.flowRunId = flow.id
  attempt_flow : attempt.flowRunId = flow.id
  attempt_cycle : attempt.workflowCycleId = cycle.id
  id : completion.nodeAttemptId = attempt.id
  flow : completion.flowRunId = flow.id
  cycle : completion.workflowCycleId = cycle.id
  node : completion.nodeKey = attempt.nodeKey
  declares : ∃ node, definition.node attempt.nodeKey = some node ∧
    node.declares completion.outcome completion.outputSchema = true

/-- The directives of a bound completion exist exactly within the live limits. -/
theorem controlDirectives_isOk (hsound : SoundDefinition definition)
    (hdef : interpreter.validated.closure.definition flow.definition = some definition)
    (hbound : BoundCompletion definition flow cycle attempt completion) : (∃ directives,
        interpreter.controlDirectives flow cycle attempt completion history = .ok directives) ↔
      interpreter.validateRuntimeLimits definition flow completion history = .ok () := by
  obtain ⟨node, hnode, hdecls⟩ := hbound.declares
  obtain ⟨declared, hdecl, hschema⟩ : ∃ declared,
      node.outcome completion.outcome = some declared ∧
        declared.schema = completion.outputSchema := by
    unfold FlowNodeDefinition.declares at hdecls
    split at hdecls
    · rename_i declared hfind
      exact ⟨declared, hfind, by simpa using hdecls⟩
    · cases hdecls
  have hfiltered : (node.outcome completion.outcome).filter
      (fun outcome => outcome.schema = completion.outputSchema) = some declared := by
    rw [hdecl, filter_some, if_pos (by simpa using hschema)]
  have hguard : ¬ (cycle.flowRunId ≠ flow.id ∨ attempt.flowRunId ≠ flow.id ∨
      attempt.workflowCycleId ≠ cycle.id ∨ completion.nodeAttemptId ≠ attempt.id ∨
      completion.flowRunId ≠ flow.id ∨ completion.workflowCycleId ≠ cycle.id ∨
      completion.nodeKey ≠ attempt.nodeKey) := by
    simp [hbound.cycle_flow, hbound.attempt_flow, hbound.attempt_cycle, hbound.id, hbound.flow,
      hbound.cycle, hbound.node]
  unfold controlDirectives
  rw [definition_eq_ok.mpr hdef]
  constructor
  · rintro ⟨directives, h⟩
    obtain ⟨-, h⟩ := guard_eq_ok.mp h
    obtain ⟨_, -, h⟩ := bind_eq_ok.mp h
    obtain ⟨_, -, h⟩ := bind_eq_ok.mp h
    obtain ⟨_, hlimits, -⟩ := bind_eq_ok.mp h
    exact hlimits
  · intro hlimits
    have hne : (definition.transitions.filter
        (·.routes attempt.nodeKey completion.outcome)) ≠ [] := by
      obtain ⟨hmem, hkey⟩ := FlowDefinition.node_mem hnode
      obtain ⟨transition, htrans, hroute⟩ :=
        hsound.routed node hmem declared (mem_of_find?_eq_some hdecl)
      have hout : declared.key = completion.outcome := by
        simpa using List.find?_some hdecl
      rw [hkey, hout] at hroute
      exact ne_nil_of_mem (mem_filter.mpr ⟨htrans, hroute⟩)
    have htotal : ∀ transition ∈ definition.transitions.filter
        (·.routes attempt.nodeKey completion.outcome), ∃ directive,
        transitionDirective definition attempt completion declared
          (history.traversals flow.id attempt.nodeKey completion.outcome) transition =
            .ok directive := by
      intro transition hmem
      obtain ⟨htrans, hroute⟩ := mem_filter.mp hmem
      exact transitionDirective_isOk hsound hnode hdecl _ htrans hroute
    obtain ⟨directives, hdirs⟩ := mapM_isOk htotal
    refine ⟨directives, guard_eq_ok.mpr ⟨hguard, bind_eq_ok.mpr ⟨node, ?_, bind_eq_ok.mpr
      ⟨declared, ?_, bind_eq_ok.mpr ⟨(), hlimits, guard_eq_ok.mpr ⟨?_, hdirs⟩⟩⟩⟩⟩⟩
    · rw [hnode, okOr_some]
    · rw [hfiltered, okOr_some]
    · simpa using hne

/-- Measured usage is within the Flow's and the admission's budgets. -/
def WithinLiveLimits (validated : ValidatedFlowDefinitionClosure) (definition : FlowDefinition)
    (flow : FlowRunId) (history : FlowRuntimeHistory) : Prop :=
  ∃ usage, history.observedUsageByFlow = .ok usage ∧
    (usage.get flow).validate definition.execution.budget = .ok () ∧
    ∃ aggregate, sumUsage (usage.rows.map (·.2)) = .ok aggregate ∧
      aggregate.validate validated.limits.budget = .ok ()

/-- The attempt and its completion are the only rows with their identity. -/
def RetainedOnce (history : FlowRuntimeHistory) (completion : NodeAttemptCompletion) : Prop :=
  history.attempts.countP (·.id = completion.nodeAttemptId) = 1 ∧
    history.completions.countP (·.nodeAttemptId = completion.nodeAttemptId) = 1

theorem validateRuntimeLimits_eq_ok :
    interpreter.validateRuntimeLimits definition flow completion history = .ok () ↔
      RetainedOnce history completion ∧
        WithinLiveLimits interpreter.validated definition flow.id history := by
  unfold validateRuntimeLimits RetainedOnce WithinLiveLimits
  rw [guard_eq_ok, not_or, not_not, not_not]
  simp only [bind_eq_ok]
  constructor
  · rintro ⟨honce, usage, husage, _, hflow, aggregate, hsum, htotal⟩
    exact ⟨honce, usage, husage, hflow, aggregate, hsum, htotal⟩
  · rintro ⟨honce, usage, husage, hflow, aggregate, hsum, htotal⟩
    exact ⟨honce, usage, husage, (), hflow, aggregate, hsum, htotal⟩

/-- An attempt has its directives unless its result is over the limits. -/
theorem attemptDirectives_isOk (hsound : SoundDefinition definition)
    (hdef : interpreter.validated.closure.definition flow.definition = some definition)
    (hbound : ∀ completion, history.completion? attempt.id = some completion →
      BoundCompletion definition flow cycle attempt completion ∧ RetainedOnce history completion) :
    (∃ directives, interpreter.attemptDirectives flow cycle history attempt = .ok directives) ↔
      ((history.completion? attempt.id).isSome = true →
        WithinLiveLimits interpreter.validated definition flow.id history) := by
  unfold attemptDirectives
  cases hcomp : history.completion? attempt.id with
  | none => simp
  | some completion =>
    obtain ⟨hrows, honce⟩ := hbound completion hcomp
    simp only [controlDirectives_isOk hsound hdef hrows, validateRuntimeLimits_eq_ok]
    constructor
    · exact fun h _ => h.2
    · exact fun h => ⟨honce, h rfl⟩

end FlowInterpreter

end OctaCity.Factory.Flow
