/-
  OctaCity.Factory.Flow.ExpandedNodes

  The admitted expansion bound against driven runs.  `expanded_measurements`
  allows every node once and once more for each repeat, so it bounds the runs
  in which a node starts again only after a repeat.  A join that several
  branches reach starts again without one.
-/
import OctaCity.Factory.Flow.Termination

namespace OctaCity.Factory.Flow

open FlowInterpreter Lib List

/-! ## The measured expansion -/

/-- Factor by which the repeat edges multiply the nodes of a definition. -/
def FlowDefinition.repeatFactor (definition : FlowDefinition) : Nat :=
  ((definition.transitions.filter fun transition => 0 < transition.maxRepeats).map
    (·.maxRepeats + 1)).prod

/-- Attempts of a node counted by the expansion. -/
def FlowDefinition.nodeVisits (definition : FlowDefinition) (node : FlowNodeDefinition) : Nat :=
  (1 + node.maxExecutionRetries) * definition.repeatFactor

section Measured

variable {closure : PinnedFlowDefinitionClosure} {definition : FlowDefinition}

theorem repeatMultiplier_eq_some {factor : Nat} (h : definition.repeatMultiplier = some factor) :
    factor = definition.repeatFactor := by
  have hfold : ∀ (transitions : List FlowTransition) (start : Nat),
      transitions.foldlM (fun total transition =>
        checkedMul 32 total (transition.maxRepeats + 1)) start = some factor →
      factor = start * (transitions.map (·.maxRepeats + 1)).prod := by
    intro transitions
    induction transitions with
    | nil =>
      intro start hfold
      cases hfold
      simp
    | cons transition rest ih =>
      intro start hfold
      rw [foldlM_cons] at hfold
      obtain ⟨mid, hmid, hfold⟩ := Option.bind_eq_some_iff.mp hfold
      rw [ih mid hfold, checkedMul_eq_some hmid, map_cons, prod_cons, Nat.mul_assoc]
  have hall := hfold _ 1 h
  rw [Nat.one_mul] at hall
  exact hall

theorem nodeExecutions_eq_some {total : Nat} (h : definition.nodeExecutions = some total) :
    total = (definition.nodes.map fun node => 1 + node.maxExecutionRetries).sum := by
  have hfold : ∀ (nodes : List FlowNodeDefinition) (start : Nat),
      nodes.foldlM (fun total node => checkedAdd 32 total (1 + node.maxExecutionRetries)) start =
        some total →
      total = start + (nodes.map fun node => 1 + node.maxExecutionRetries).sum := by
    intro nodes
    induction nodes with
    | nil =>
      intro start hfold
      cases hfold
      simp
    | cons node rest ih =>
      intro start hfold
      rw [foldlM_cons] at hfold
      obtain ⟨mid, hmid, hfold⟩ := Option.bind_eq_some_iff.mp hfold
      rw [ih mid hfold, checkedAdd_eq_some hmid, map_cons, sum_cons, Nat.add_assoc]
  have hall := hfold _ 0 h
  rw [Nat.zero_add] at hall
  exact hall

/-- The fold over called definitions adds their expansions. -/
theorem foldlM_addExpansion {expanded : FlowDefinitionRef → Except FactoryError (Nat × Nat)}
    {size : FlowDefinitionRef → Nat} {children : List FlowDefinitionRef}
    (hsize : ∀ child ∈ children, ∀ measured, expanded child = .ok measured →
      measured.1 = size child)
    {start total : Nat × Nat}
    (h : children.foldlM (fun (measured : Nat × Nat) child => do
      let expansion ← expanded child
      addExpansion measured.1 measured.2 expansion.1 expansion.2) start = .ok total) :
    total.1 = start.1 + (children.map size).sum := by
  induction children generalizing start with
  | nil =>
    cases h
    simp
  | cons child rest ih =>
    rw [foldlM_cons] at h
    obtain ⟨mid, hmid, h⟩ := bind_eq_ok.mp h
    obtain ⟨measured, hmeasured, hmid⟩ := bind_eq_ok.mp hmid
    unfold addExpansion at hmid
    obtain ⟨sum, hsum, hmid⟩ := bind_eq_ok.mp hmid
    obtain ⟨depth, -, hmid⟩ := bind_eq_ok.mp hmid
    cases hmid
    have hsum := checkedAdd_eq_some (okOr_eq_ok.mp hsum)
    have hchild := hsize child (mem_cons_self ..) measured hmeasured
    have hrest := ih (fun other hother => hsize other (mem_cons_of_mem _ hother)) h
    rw [hrest, map_cons, sum_cons, ← hchild]
    show sum + _ = _
    omega

/-- Called nodes have no retries, so the expansion is a sum over the nodes. -/
theorem sum_nodes_expansion (nodes : List FlowNodeDefinition) (factor : Nat)
    (size : FlowDefinitionRef → Nat)
    (hcall : ∀ node ∈ nodes, node.subflow.isSome = true → node.maxExecutionRetries = 0) :
    ((nodes.map fun node => 1 + node.maxExecutionRetries).sum +
      ((nodes.filterMap (·.subflow)).map size).sum) * factor =
    (nodes.map fun node => (1 + node.maxExecutionRetries) * factor *
      (1 + (node.subflow.map size).getD 0)).sum := by
  induction nodes with
  | nil => simp
  | cons node rest ih =>
    have hrest := ih fun other hother => hcall other (mem_cons_of_mem _ hother)
    rw [map_cons, sum_cons, map_cons, sum_cons, ← hrest]
    cases hsflow : node.subflow with
    | none =>
      rw [filterMap_cons_none hsflow]
      simp only [Option.map_none, Option.getD_none]
      ring
    | some nested =>
      have hzero := hcall node (mem_cons_self ..) (by rw [hsflow]; rfl)
      rw [filterMap_cons_some hsflow, map_cons, sum_cons, hzero]
      simp only [Option.map_some, Option.getD_some]
      ring

/-- The measured expansion counts the visits of every node. -/
theorem expandedMeasurements_eq_expansion
    (hsound : ∀ {reference definition}, closure.definition reference = some definition →
      SoundDefinition definition)
    {fuel : Nat} {reference : FlowDefinitionRef} {measured : Nat × Nat}
    (h : expandedMeasurements closure fuel reference = .ok measured) :
    measured.1 = expansion closure FlowDefinition.nodeVisits fuel reference := by
  induction fuel generalizing reference measured with
  | zero => cases h
  | succ fuel ih =>
    rw [expandedMeasurements] at h
    obtain ⟨definition, hdef, h⟩ := bind_eq_ok.mp h
    obtain ⟨factor, hfactor, h⟩ := bind_eq_ok.mp h
    obtain ⟨executions, hexecs, h⟩ := bind_eq_ok.mp h
    obtain ⟨total, hfold, h⟩ := bind_eq_ok.mp h
    obtain ⟨nodes, hnodes, h⟩ := bind_eq_ok.mp h
    cases h
    rw [okOr_eq_ok] at hdef hfactor hexecs hnodes
    have hcalls : ∀ node ∈ definition.nodes, node.subflow.isSome = true →
        node.maxExecutionRetries = 0 := fun node hnode => ((hsound hdef).call node hnode).2
    have htotal := foldlM_addExpansion (fun child _ measured hchild => ih hchild) hfold
    rw [expansion, hdef]
    simp only [FlowDefinition.nodeVisits]
    rw [← sum_nodes_expansion definition.nodes definition.repeatFactor _ hcalls,
      checkedMul_eq_some hnodes, htotal, nodeExecutions_eq_some hexecs,
      repeatMultiplier_eq_some hfactor]
    rfl

/-- One start and one for each repeat fit into the factor. -/
theorem FlowDefinition.repeatTotal_lt_factor (definition : FlowDefinition) :
    1 + definition.repeatTotal ≤ definition.repeatFactor := by
  unfold repeatTotal repeatFactor
  induction definition.transitions with
  | nil => simp
  | cons transition rest ih =>
    rw [map_cons, sum_cons]
    by_cases hpos : 0 < transition.maxRepeats
    · rw [filter_cons_of_pos (by simpa using hpos), map_cons, prod_cons]
      refine le_trans ?_ (Nat.mul_le_mul_left (transition.maxRepeats + 1) ih)
      calc 1 + (transition.maxRepeats + (rest.map (·.maxRepeats)).sum)
          ≤ 1 + (transition.maxRepeats + (rest.map (·.maxRepeats)).sum) +
            transition.maxRepeats * (rest.map (·.maxRepeats)).sum := Nat.le_add_right _ _
        _ = (transition.maxRepeats + 1) * (1 + (rest.map (·.maxRepeats)).sum) := by ring
    · rw [filter_cons_of_neg (by simpa using hpos)]
      omega

end Measured

/-! ## Renewed nodes -/

namespace FlowInterpreter

/-- A result of the Flow Run, no earlier than the last attempt of the node,
    takes a repeat edge that is not exhausted. -/
def isRenewed (definition : FlowDefinition) (history : FlowRuntimeHistory) (flow : FlowRunId)
    (key : FactoryKey) : Bool :=
  history.attempts.any fun producer =>
    producer.flowRunId = flow &&
    (history.attempts.all fun row =>
      !decide (row.flowRunId = flow ∧ row.nodeKey = key) || row.number ≤ producer.number) &&
    match history.completion? producer.id with
    | none => false
    | some completion => definition.transitions.any fun transition =>
        transition.routes producer.nodeKey completion.outcome &&
        history.countThrough flow producer.nodeKey completion.outcome producer.number ≤
          transition.maxRepeats

/-- Nodes that already have an attempt in the Flow Run start again only after a
    repeat edge was taken. -/
def restartsRenewed (interpreter : FlowInterpreter) (history : FlowRuntimeHistory)
    (command : FlowCommand) (_ : FlowRuntimeHistory) : Bool :=
  match command with
  | .dispatch flowId input =>
    (history.attempts.all fun row =>
      !decide (row.flowRunId = flowId ∧ row.nodeKey = input.nodeKey)) ||
    match history.flowRun? flowId with
    | none => false
    | some flow =>
      match interpreter.validated.closure.definition flow.definition with
      | none => false
      | some definition => isRenewed definition history flowId input.nodeKey
  | _ => true

end FlowInterpreter

section Renewed

variable {interpreter : FlowInterpreter} {command : FlowCommand} {validated : ValidatedFlowDefinitionClosure}
  {root : FlowRun} {history next : FlowRuntimeHistory} {flow : FlowRun}
  {definition : FlowDefinition} {attempt : NodeAttempt}

/-- No attempt of the node stands between the producer and the attempt. -/
structure Since (history : FlowRuntimeHistory) (attempt producer : NodeAttempt) : Prop where
  flow : producer.flowRunId = attempt.flowRunId
  earlier : producer.number < attempt.number
  last : ∀ other ∈ history.attempts, other.flowRunId = attempt.flowRunId →
    other.nodeKey = attempt.nodeKey → other.number < attempt.number →
      other.number ≤ producer.number

/-- The attempt is the first of its node or follows a repeat taken since the
    one before. -/
def Renewed (definition : FlowDefinition) (history : FlowRuntimeHistory)
    (attempt : NodeAttempt) : Prop :=
  (∀ other ∈ history.attempts, other.flowRunId = attempt.flowRunId →
    other.nodeKey = attempt.nodeKey → attempt.number ≤ other.number) ∨
  ∃ producer completion transition, Since history attempt producer ∧
    Takes definition history producer completion transition ∧
    history.traversal producer completion ≤ transition.maxRepeats

theorem isRenewed_eq_true {id : FlowRunId} {key : FactoryKey}
    (hrows : RunRows validated root history) (h : isRenewed definition history id key = true) :
    ∃ producer completion transition, producer.flowRunId = id ∧
      Takes definition history producer completion transition ∧
      history.traversal producer completion ≤ transition.maxRepeats ∧
      ∀ other ∈ history.attempts, other.flowRunId = id → other.nodeKey = key →
        other.number ≤ producer.number := by
  unfold isRenewed at h
  obtain ⟨producer, hprodr, h⟩ := any_eq_true.mp h
  simp only [Bool.and_eq_true, decide_eq_true_eq, all_eq_true, Bool.or_eq_true,
    Bool.not_eq_true', decide_eq_false_iff_not] at h
  obtain ⟨⟨hflow, hlast⟩, h⟩ := h
  split at h
  · cases h
  · rename_i completion hcomp
    obtain ⟨transition, hdecl, h⟩ := any_eq_true.mp h
    rw [Bool.and_eq_true, decide_eq_true_eq] at h
    obtain ⟨hmem, hid⟩ := (completion?_eq_some hrows.completed).mp hcomp
    refine ⟨producer, completion, transition, hflow,
      ⟨hprodr, hrows.completedBy hprodr hmem hid, hdecl, h.1⟩, ?_, ?_⟩
    · unfold FlowRuntimeHistory.traversal
      rw [hflow]
      exact h.2
    · intro other hother hoflow hotherKey
      exact (hlast other hother).resolve_left fun hnot => hnot ⟨hoflow, hotherKey⟩

theorem Renewed.step (hrows : RunRows interpreter.validated root history)
    (hrowsN : RunRows interpreter.validated root next) (horder : RunOrder history)
    (hatt : attempt ∈ history.attempts) (h : Renewed definition history attempt)
    (hstep : Step interpreter history command next) : Renewed definition next attempt := by
  have hext := hstep.extends
  rcases h with hfirst | ⟨producer, completion, transition, hsince, htakes, hle⟩
  · exact Or.inl (hstep.number_le hrows hatt hfirst)
  · refine Or.inr ⟨producer, completion, transition, ⟨hsince.flow, hsince.earlier, ?_⟩,
      ⟨hext.attempts htakes.mem, ?_, htakes.declared, htakes.routes⟩, ?_⟩
    · intro other hother hflow hkey hlt
      rcases hstep.attempts with heq | ⟨added, heq, hnext⟩
      · rw [heq] at hother
        exact hsince.last other hother hflow hkey hlt
      · rw [heq] at hother
        rcases mem_concat.mp hother with hother | rfl
        · exact hsince.last other hother hflow hkey hlt
        · -- The appended attempt has a greater number.
          exact absurd hlt (not_lt.mpr (le_of_lt (hrows.number_lt_next hnext hatt hflow.symm)))
    · exact { htakes.completed with mem := hext.completions htakes.completed.mem }
    · unfold FlowRuntimeHistory.traversal
      rw [hstep.countThrough_eq hrows hrowsN horder htakes.mem htakes.completed.settled]
      exact hle

/-- Which attempts a command appends: none, the dispatched one or a retry. -/
theorem Step.attempts_cases (h : Step interpreter history command next) :
    next.attempts = history.attempts ∨
    (∃ flow ∈ history.flowRuns, ∃ input attempt, command = .dispatch flow.id input ∧
      next.attempts = history.attempts ++ [attempt] ∧ history.IsNext attempt ∧
      attempt.flowRunId = flow.id ∧ attempt.nodeKey = input.nodeKey) ∨
    ∃ attempt, next.attempts = history.attempts ++ [attempt] ∧ attempt.retryOf ≠ none := by
  cases h with
  | dispatch hflow _ _ _ _ _ hnew hnext =>
    exact Or.inr (Or.inl ⟨_, hflow, _, _, rfl, rfl, hnext, hnew.flow, hnew.key⟩)
  | retry _ _ _ _ _ _ _ _ _ _ _ hretr =>
    refine Or.inr (Or.inr ⟨_, rfl, ?_⟩)
    rw [(NodeAttempt.withRetryOf_eq_ok hretr).1]
    exact Option.some_ne_none _
  | complete => exact Or.inl rfl
  | stop => exact Or.inl rfl
  | call => exact Or.inl rfl
  | restart => exact Or.inl rfl

/-- An allowed dispatch starts a new node or follows a repeat. -/
theorem Renewed.of_allowed {added : NodeAttempt} {input : NodeAttemptInput}
    (hrows : RunRows interpreter.validated root history)
    (hrowsN : RunRows interpreter.validated root next) (horder : RunOrder history)
    (hstep : Step interpreter history command next) (hflow : flow ∈ history.flowRuns)
    (hdef : interpreter.validated.closure.definition flow.definition = some definition)
    (heq : next.attempts = history.attempts ++ [added]) (hnext : history.IsNext added)
    (howner : added.flowRunId = flow.id) (hkey : added.nodeKey = input.nodeKey)
    (hallow : interpreter.restartsRenewed history (.dispatch flow.id input) next = true) :
    Renewed definition next added := by
  have hext := hstep.extends
  have hlast : ∀ other ∈ history.attempts, other.flowRunId = added.flowRunId →
      other.number < added.number := fun other hother hsame =>
    hrows.number_lt_next hnext hother hsame
  unfold restartsRenewed at hallow
  rw [Bool.or_eq_true] at hallow
  rcases hallow with hfresh | hrenew
  · refine Or.inl fun other hother hoflow hotherKey => ?_
    rw [heq] at hother
    rcases mem_concat.mp hother with hother | rfl
    · have hnot := all_eq_true.mp hfresh other hother
      rw [Bool.not_eq_true', decide_eq_false_iff_not] at hnot
      exact absurd ⟨hoflow.trans howner, hotherKey.trans hkey⟩ hnot
    · exact le_refl _
  · have hfind : history.flowRun? flow.id = some flow :=
      (find?_key_eq_some hrows.runs).mpr ⟨hflow, rfl⟩
    simp only [hfind, hdef] at hrenew
    obtain ⟨producer, completion, transition, hprodr, htakes, hle, hwin⟩ :=
      isRenewed_eq_true hrows hrenew
    refine Or.inr ⟨producer, completion, transition, ⟨?_, ?_, ?_⟩,
      ⟨hext.attempts htakes.mem, ?_, htakes.declared, htakes.routes⟩, ?_⟩
    · rw [hprodr, howner]
    · exact hlast producer htakes.mem (by rw [hprodr, howner])
    · intro other hother hoflow hotherKey hlt
      rw [heq] at hother
      rcases mem_concat.mp hother with hother | rfl
      · exact hwin other hother (hoflow.trans howner) (hotherKey.trans hkey)
      · exact absurd hlt (lt_irrefl _)
    · exact { htakes.completed with mem := hext.completions htakes.completed.mem }
    · unfold FlowRuntimeHistory.traversal
      rw [hstep.countThrough_eq hrows hrowsN horder htakes.mem htakes.completed.settled]
      exact hle

/-- Every dispatch of the run is renewed. -/
def RunRenewed (validated : ValidatedFlowDefinitionClosure) (history : FlowRuntimeHistory) :
    Prop :=
  ∀ flow ∈ history.flowRuns, ∀ definition,
    validated.closure.definition flow.definition = some definition →
    ∀ attempt ∈ history.attempts, attempt.flowRunId = flow.id → attempt.retryOf = none →
      Renewed definition history attempt

theorem RunRenewed.step (hdriven : Driven interpreter.validated root history)
    (hdrivN : Driven interpreter.validated root next)
    (h : RunRenewed interpreter.validated history)
    (hallow : interpreter.restartsRenewed history command next = true)
    (hstep : Step interpreter history command next) : RunRenewed interpreter.validated next := by
  -- Attempts that were there belong to Flow Runs that were there.
  have hold : ∀ flow ∈ next.flowRuns, ∀ definition,
      interpreter.validated.closure.definition flow.definition = some definition →
      ∀ attempt ∈ history.attempts, attempt.flowRunId = flow.id → attempt.retryOf = none →
        Renewed definition next attempt := by
    intro flow hflow definition hdef attempt hatt howner hfirst
    obtain ⟨run, hrun, hid⟩ := hdriven.rows.attempt_flow hatt
    have hsame := hdrivN.rows.run_unique (hstep.extends.flowRuns hrun) hflow
      (by rw [hid, howner])
    subst hsame
    exact (h run hrun definition hdef attempt hatt howner hfirst).step hdriven.rows
      hdrivN.rows hdriven.order hatt hstep
  rcases hstep.attempts_cases with heq | ⟨run, hrun, input, added, rfl, heq, hisNext, hrunId, hkey⟩ |
    ⟨added, heq, hretry⟩
  · intro flow hflow definition hdef attempt hatt
    rw [heq] at hatt
    exact hold flow hflow definition hdef attempt hatt
  · intro flow hflow definition hdef attempt hatt howner hfirst
    rw [heq] at hatt
    rcases mem_concat.mp hatt with hatt | rfl
    · exact hold flow hflow definition hdef attempt hatt howner hfirst
    · have hsame := hdrivN.rows.run_unique (hstep.extends.flowRuns hrun) hflow
        (by rw [← hrunId, howner])
      subst hsame
      exact Renewed.of_allowed hdriven.rows hdrivN.rows hdriven.order hstep hrun hdef heq
        hisNext hrunId hkey hallow
  · intro flow hflow definition hdef attempt hatt howner hfirst
    rw [heq] at hatt
    rcases mem_concat.mp hatt with hatt | rfl
    · exact hold flow hflow definition hdef attempt hatt howner hfirst
    · exact absurd hfirst hretry

/-- A renewed run dispatches a node once and once more for each repeat. -/
theorem RunRenewed.dispatchesAt_card_le (hrows : RunRows validated root history)
    (h : RunRenewed validated history) (hflow : flow ∈ history.flowRuns)
    (hdef : validated.closure.definition flow.definition = some definition) (key : FactoryKey) :
    (history.dispatchesAt flow.id key).card ≤ 1 + definition.repeatTotal := by
  classical
  let first := (history.dispatchesAt flow.id key).filter fun attempt =>
    ∀ other ∈ history.dispatchesAt flow.id key, attempt.number ≤ other.number
  let renewed := (history.dispatchesAt flow.id key).filter fun attempt =>
    ∃ producer completion transition, Since history attempt producer ∧
      Takes definition history producer completion transition ∧
      history.traversal producer completion ≤ transition.maxRepeats
  have hin : ∀ attempt ∈ history.dispatchesAt flow.id key, attempt ∈ history.attempts ∧
      attempt.flowRunId = flow.id ∧ attempt.nodeKey = key := fun attempt hatt =>
    (FlowRuntimeHistory.mem_dispatchesAt.mp hatt).1
  have hsplit : history.dispatchesAt flow.id key ⊆ first ∪ renewed := by
    intro attempt hatt
    obtain ⟨⟨hmem, howner, hkey⟩, hnone⟩ := FlowRuntimeHistory.mem_dispatchesAt.mp hatt
    simp only [first, renewed, Finset.mem_union, Finset.mem_filter]
    rcases h flow hflow definition hdef attempt hmem howner hnone with hfirst | hrenew
    · refine Or.inl ⟨hatt, fun other hother => ?_⟩
      obtain ⟨hotherMem, hoflow, hotherKey⟩ := hin other hother
      exact hfirst other hotherMem (by rw [hoflow, howner]) (by rw [hotherKey, hkey])
    · exact Or.inr ⟨hatt, hrenew⟩
  have hfirst : first.card ≤ 1 := by
    refine Finset.card_le_one.mpr fun left hleft right hright => ?_
    obtain ⟨hleftAt, hleftMin⟩ := Finset.mem_filter.mp hleft
    obtain ⟨hrightAt, hrightMin⟩ := Finset.mem_filter.mp hright
    obtain ⟨hleftMem, hleftFlow, -⟩ := hin left hleftAt
    obtain ⟨hrightMem, hrightFlow, -⟩ := hin right hrightAt
    exact hrows.number_unique hleftMem hrightMem (by rw [hleftFlow, hrightFlow])
      (le_antisymm (hleftMin right hrightAt) (hrightMin left hleftAt))
  have hrenew : renewed.card ≤ definition.repeatTotal := by
    refine hrows.card_le_repeatTotal flow.id (Since history) ?_ ?_
    · intro attempt hatt
      obtain ⟨hat, producer, completion, transition, hsince, htakes, hle⟩ :=
        Finset.mem_filter.mp hatt
      exact ⟨producer, completion, transition, hsince,
        by rw [hsince.flow, (hin attempt hat).2.1], htakes, hle⟩
    · intro left hleft right hright producer hleftSince hrightSince
      obtain ⟨hleftMem, hleftFlow, hleftKey⟩ := hin left (Finset.mem_filter.mp hleft).1
      obtain ⟨hrightMem, hrightFlow, hrightKey⟩ := hin right (Finset.mem_filter.mp hright).1
      -- The windows before two dispatches of the node do not overlap.
      rcases lt_trichotomy left.number right.number with hlt | heq | hgt
      · have hle := hrightSince.last left hleftMem (by rw [hleftFlow, hrightFlow])
          (by rw [hleftKey, hrightKey]) hlt
        exact absurd hleftSince.earlier (not_lt.mpr hle)
      · exact hrows.number_unique hleftMem hrightMem (by rw [hleftFlow, hrightFlow]) heq
      · have hle := hleftSince.last right hrightMem (by rw [hleftFlow, hrightFlow])
          (by rw [hleftKey, hrightKey]) hgt
        exact absurd hrightSince.earlier (not_lt.mpr hle)
  have htotal := (Finset.card_le_card hsplit).trans (Finset.card_union_le _ _)
  omega

end Renewed

/-! ## The bound -/

/-- Runs in which nodes start again only after a repeat keep the admitted
    expansion bound, in every interleaving. -/
theorem attempts_le_expandedNodes {checks : DefinitionChecks}
    {closure : PinnedFlowDefinitionClosure} {limits : FlowAdmissionLimits}
    {validated : ValidatedFlowDefinitionClosure}
    (hvalid : ValidatedFlowDefinitionClosure.new checks closure limits = .ok validated)
    {run : FactoryRunId} {commands : List FlowCommand} {history : FlowRuntimeHistory}
    (hrun : FlowInterpreter.run ⟨validated⟩ (restartsRenewed ⟨validated⟩)
      (FlowRun.root run closure.root) commands = some history) :
    history.attempts.length ≤ validated.expandedNodes := by
  obtain ⟨hclos, rfl, -⟩ := SoundClosure.of_new hvalid
  obtain ⟨hdriven, hrenew⟩ : Driven validated (FlowRun.root run validated.closure.root) history ∧
      RunRenewed validated history := by
    refine run_induction (P := fun history =>
      Driven validated (FlowRun.root run validated.closure.root) history ∧
        RunRenewed validated history) ⟨?_, ?_⟩ ?_ hrun
    · exact ⟨RunRows.start rfl
        (PinnedFlowDefinitionClosure.definition_of_mem validated.closure.rooted), RunOrder.start,
        RunRoutes.start⟩
    · rintro flow - definition - attempt ⟨⟩
    · rintro current command next ⟨hdriven, hrenew⟩ hallow hnext
      have hstep := step_cases hnext
      have hdrivN := hdriven.step hclos hstep
      exact ⟨hdrivN, RunRenewed.step hdriven hdrivN hrenew hallow hstep⟩
  have hnests : ∀ flow ∈ history.flowRuns, NestsWithin validated.closure
      validated.closure.definitions.length flow.definition :=
    nestsWithin_of_run (NestsWithin.of_measured hclos.measured) hrun
  have hmeasured := expandedMeasurements_eq_expansion hclos.sound hclos.measured
  show history.attempts.length ≤ (validated.expandedNodes, validated.maxDepth).1
  rw [hmeasured]
  refine hdriven.rows.attempts_length_le hnests ?_ rfl
  intro flow hflow definition hdef key node hnode
  refine (hdriven.rows.attemptsAt_card_le hflow hdef hnode).trans (Nat.mul_le_mul_left _ ?_)
  exact (hrenew.dispatchesAt_card_le hdriven.rows hflow hdef key).trans
    definition.repeatTotal_lt_factor

/-- The second cycle of the loop follows a repeat, and the run stays within two
    attempts. -/
theorem Loop.attempts_within_expansion : ∃ later,
    FlowInterpreter.run ⟨Loop.validated⟩ (restartsRenewed ⟨Loop.validated⟩) Diamond.root
      (Loop.firstCycle ++ Loop.secondCycle) = some later ∧
    later.attempts.length ≤ Loop.validated.expandedNodes := by
  have hlater : (FlowInterpreter.run ⟨Loop.validated⟩ (restartsRenewed ⟨Loop.validated⟩)
      Diamond.root (Loop.firstCycle ++ Loop.secondCycle)).isSome = true := by decide
  obtain ⟨later, hlater⟩ := Option.isSome_iff_exists.mp hlater
  exact ⟨later, hlater, attempts_le_expandedNodes Loop.closure_validated hlater⟩

namespace Diamond

/-- The right branch starts after the join and joins once more. -/
def rejoined : List FlowCommand :=
  leftFirst ++
    [.dispatch root.id (input "right" .join 4), .complete (attemptId 4) result,
     .dispatch root.id (input "merge" .join 5)]

/-- Four expanded nodes are admitted, and the run attempts five. -/
theorem rejoined_exceeds_expansion :
    ValidatedFlowDefinitionClosure.new checks.toDefinitionChecks closure limits = .ok validated ∧
    ¬ ∀ commands history, FlowInterpreter.run ⟨validated⟩ everyStep (FlowRun.root ⟨5, by decide⟩
      closure.root) commands = some history →
        history.attempts.length ≤ validated.expandedNodes := by
  refine ⟨by decide +kernel, fun hbound => ?_⟩
  have hcount : (FlowInterpreter.run ⟨validated⟩ everyStep (FlowRun.root ⟨5, by decide⟩
      closure.root) rejoined).map (fun history => history.attempts.length) = some 5 := by
    decide
  obtain ⟨history, hrun, hlen⟩ := Option.map_eq_some_iff.mp hcount
  have hle := hbound rejoined history hrun
  rw [hlen] at hle
  exact absurd hle (by decide)

end Diamond

end OctaCity.Factory.Flow
