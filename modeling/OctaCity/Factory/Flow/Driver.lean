/-
  OctaCity.Factory.Flow.Driver

  Runs driven only by the interpreter.

  A command appends the row the interpreter's answer calls for, through the
  row constructors of `Runtime`: an attempt for a node offered by
  `readyNodes`, a completion with a declared outcome, a technical stop, a
  retry of a failed attempt, the pinned child of a subflow call, or the cycle
  reported as a restart.  `step` rejects everything else.
-/
import OctaCity.Factory.Flow.History

namespace OctaCity.Factory.Flow

open Lib

namespace FlowRuntimeHistory

def flowRun? (history : FlowRuntimeHistory) (id : FlowRunId) : Option FlowRun :=
  history.flowRuns.find? (·.id = id)

def runCycles (history : FlowRuntimeHistory) (flow : FlowRunId) : List WorkflowCycle :=
  history.cycles.filter fun cycle => cycle.flowRunId = flow

/-- The cycle of the Flow Run with the greatest number. -/
def newestCycle? (history : FlowRuntimeHistory) (flow : FlowRunId) : Option WorkflowCycle :=
  (history.runCycles flow).find? fun cycle =>
    (history.runCycles flow).all fun other => other.number ≤ cycle.number

def attemptCount (history : FlowRuntimeHistory) (flow : FlowRunId) : Nat :=
  history.attempts.countP fun attempt => attempt.flowRunId = flow

/-- Follows the retries of an attempt, of which at most `maximum` are allowed. -/
def retriesWithin (history : FlowRuntimeHistory) : Nat → NodeAttempt → Bool
  | maximum, current =>
    match current.retryOf with
    | none => true
    | some parent =>
      match maximum with
      | 0 => false
      | maximum + 1 =>
        match history.attempt? parent with
        | none => false
        | some previous => history.retriesWithin maximum previous

/-- The rows an admission starts with. -/
def start (root : FlowRun) : FlowRuntimeHistory :=
  { stops := [], flowRuns := [root], cycles := [WorkflowCycle.initial root], attempts := [],
    completions := [] }

end FlowRuntimeHistory

/-- What a driver may ask for. -/
inductive FlowCommand
  | dispatch (flow : FlowRunId) (input : NodeAttemptInput)
  | complete (attempt : NodeAttemptId) (input : NodeAttemptCompletionInput)
  | stop (attempt : NodeAttemptId) (ownership : FactoryClaimOwnership)
      (reason : FlowNodeStopReason) (observedAt : Timestamp) (usage : BudgetUsage)
  | retry (attempt : NodeAttemptId) (input : NodeAttemptInput)
  | call (attempt : NodeAttemptId) (child : FlowRunId)
  | restart (flow : FlowRunId) (cycle : WorkflowCycleId)

namespace FlowInterpreter

variable (interpreter : FlowInterpreter)

/-- The node has an attempt in the cycle that is neither completed nor retried. -/
def hasPending (history : FlowRuntimeHistory) (flow : FlowRun) (cycle : WorkflowCycle)
    (key : FactoryKey) : Bool :=
  (cycleAttempts history flow cycle).any fun attempt =>
    attempt.nodeKey = key && isPending history (cycleAttempts history flow cycle) attempt

/-- Identity and number are the next ones of the Flow Run. -/
def isNext (history : FlowRuntimeHistory) (flow : FlowRunId) (input : NodeAttemptInput) : Bool :=
  (history.attempt? input.id).isNone ∧ input.number.value = history.attemptCount flow + 1

def dispatch (history : FlowRuntimeHistory) (flowId : FlowRunId) (input : NodeAttemptInput) :
    Option FlowRuntimeHistory := do
  let flow ← history.flowRun? flowId
  let cycle ← history.newestCycle? flowId
  let definition ← (interpreter.definition flow).toOption
  let ready ← (interpreter.readyNodes flow cycle history).toOption
  if input.nodeKey ∈ ready.rows ∧ ¬ hasPending history flow cycle input.nodeKey ∧
      isNext history flowId input then
    let attempt ← (NodeAttempt.new flow cycle definition input).toOption
    some { history with attempts := history.attempts ++ [attempt] }
  else none

/-- The terminal the child Flow Run of a call has reached. -/
def childTerminal (history : FlowRuntimeHistory) (call : NodeAttempt) : Option FactoryKey := do
  let child ← history.flowRuns.find? (·.parent = some ⟨call.flowRunId, call.id⟩)
  let cycle ← history.newestCycle? child.id
  match interpreter.progress child cycle history with
  | .ok (.terminal key _) => some key
  | _ => none

def complete (history : FlowRuntimeHistory) (attemptId : NodeAttemptId)
    (input : NodeAttemptCompletionInput) : Option FlowRuntimeHistory := do
  let attempt ← history.attempt? attemptId
  let flow ← history.flowRun? attempt.flowRunId
  let definition ← (interpreter.definition flow).toOption
  if isUnfinished history attempt ∧
      (attempt.nodeKind = .subflowCall →
        interpreter.childTerminal history attempt = some input.outcome) then
    let completion ← (NodeAttemptCompletion.new attempt definition input).toOption
    some { history with completions := history.completions ++ [completion] }
  else none

def stop (history : FlowRuntimeHistory) (attemptId : NodeAttemptId)
    (ownership : FactoryClaimOwnership) (reason : FlowNodeStopReason) (observedAt : Timestamp)
    (usage : BudgetUsage) : Option FlowRuntimeHistory := do
  let attempt ← history.attempt? attemptId
  if isUnfinished history attempt then
    let receipt ← (FlowNodeStop.new attempt ownership reason observedAt usage).toOption
    some { history with stops := history.stops ++ [receipt] }
  else none

def retry (history : FlowRuntimeHistory) (attemptId : NodeAttemptId) (input : NodeAttemptInput) :
    Option FlowRuntimeHistory := do
  let previous ← history.attempt? attemptId
  let flow ← history.flowRun? previous.flowRunId
  let cycle ← history.cycles.find? (·.id = previous.workflowCycleId)
  let definition ← (interpreter.definition flow).toOption
  let node ← definition.node previous.nodeKey
  let receipt ← history.stops.find? (·.nodeAttemptId = previous.id)
  let attempt ← (NodeAttempt.new flow cycle definition input).toOption
  let retried ← (attempt.withRetryOf previous).toOption
  if receipt.reason = .executionFailed ∧ receipt.observedAt ≤ input.startedAt ∧
      ¬ (history.attempts.any fun row => row.retryOf = some previous.id) ∧
      isNext history flow.id input ∧
      history.retriesWithin node.maxExecutionRetries retried then
    some { history with attempts := history.attempts ++ [retried] }
  else none

def call (history : FlowRuntimeHistory) (attemptId : NodeAttemptId) (child : FlowRunId) :
    Option FlowRuntimeHistory := do
  let attempt ← history.attempt? attemptId
  let flow ← history.flowRun? attempt.flowRunId
  let nested ← nestedDefinition interpreter.validated flow attempt
  let run := FlowRun.nested child flow.factoryRunId nested ⟨flow.id, attempt.id⟩
  if ¬ (history.flowRuns.any fun row => row.parent = run.parent ∨ row.id = child) ∧
      ¬ history.cycles.any fun row => row.id = FlowRunId.initialCycleId child then
    some
      { history with
        flowRuns := history.flowRuns ++ [run]
        cycles := history.cycles ++ [WorkflowCycle.initial run] }
  else none

def restart (history : FlowRuntimeHistory) (flowId : FlowRunId) (cycleId : WorkflowCycleId) :
    Option FlowRuntimeHistory := do
  let flow ← history.flowRun? flowId
  let cycle ← history.newestCycle? flowId
  match interpreter.progress flow cycle history with
  | .ok (.restartCycle _ source) =>
    let attempt ← history.attempt? source
    let next ← (WorkflowCycle.restart cycleId cycle attempt).toOption
    if history.cycles.any fun row => row.id = cycleId then none
    else some { history with cycles := history.cycles ++ [next] }
  | _ => none

def step (history : FlowRuntimeHistory) : FlowCommand → Option FlowRuntimeHistory
  | .dispatch flow input => interpreter.dispatch history flow input
  | .complete attempt input => interpreter.complete history attempt input
  | .stop attempt ownership reason observedAt usage =>
    stop history attempt ownership reason observedAt usage
  | .retry attempt input => interpreter.retry history attempt input
  | .call attempt child => interpreter.call history attempt child
  | .restart flow cycle => interpreter.restart history flow cycle

/-- A step that is kept only when it is allowed. -/
def drive (allowed : FlowRuntimeHistory → FlowCommand → FlowRuntimeHistory → Bool)
    (history : FlowRuntimeHistory) (command : FlowCommand) : Option FlowRuntimeHistory := do
  let next ← interpreter.step history command
  if allowed history command next then some next else none

/-- The history reached by allowed commands from an admission's first rows. -/
def run (allowed : FlowRuntimeHistory → FlowCommand → FlowRuntimeHistory → Bool) (root : FlowRun)
    (commands : List FlowCommand) : Option FlowRuntimeHistory :=
  commands.foldlM (interpreter.drive allowed) (FlowRuntimeHistory.start root)

/-- Every step the interpreter drives. -/
def everyStep (_ : FlowRuntimeHistory) (_ : FlowCommand) (_ : FlowRuntimeHistory) : Bool := true

end FlowInterpreter

/-! ## A fan-out whose branches join -/

namespace Diamond

def okOutcome : FlowOutcomeDefinition := ⟨⟨"ok"⟩, ⟨⟨"result"⟩, ⟨"v1"⟩, ⟨1⟩⟩⟩

def budget : BudgetLimit := ⟨10, 100, 100, 100, 100⟩

def node (key : String) (kind : FlowNodeKind) : FlowNodeDefinition :=
  { key := ⟨key⟩, kind, outcomes := [okOutcome], budget }

def reference : FlowDefinitionRef := ⟨⟨1, by decide⟩, .initial, ⟨7⟩⟩

/-- `split` fans out to `left` and `right`, which both continue with `merge`. -/
def definition : FlowDefinition :=
  { reference
    entry := ⟨"split"⟩
    nodes := [node "left" .join, node "merge" .join, node "right" .join, node "split" .fanOut]
    transitions :=
      [{ predecessor := ⟨"left"⟩, outcome := ⟨"ok"⟩, target := .node ⟨"merge"⟩ },
       { predecessor := ⟨"merge"⟩, outcome := ⟨"ok"⟩, target := .terminal ⟨"done"⟩ },
       { predecessor := ⟨"right"⟩, outcome := ⟨"ok"⟩, target := .node ⟨"merge"⟩ },
       { predecessor := ⟨"split"⟩, outcome := ⟨"ok"⟩, target := .node ⟨"left"⟩ },
       { predecessor := ⟨"split"⟩, outcome := ⟨"ok"⟩, target := .node ⟨"right"⟩ }]
    terminals := [⟨⟨"done"⟩, okOutcome.schema⟩]
    execution := ⟨budget, {}, 4⟩ }

def closure : PinnedFlowDefinitionClosure :=
  ⟨reference, [definition], List.pairwise_singleton _ _, by decide, by decide,
    by decide +kernel⟩

def limits : FlowAdmissionLimits := ⟨4, 100, 4, 4, 4, budget, {}⟩

def root : FlowRun := FlowRun.root ⟨5, by decide⟩ reference

def admitted : AdmittedFlow := ⟨closure, limits, 5, 5, root, WorkflowCycle.initial root⟩

/-- Content checks that accept, with the digest the reference was built with. -/
def checks : AdmissionChecks where
  bindings _ := .ok ()
  digest _ := ⟨7⟩
  issueSlots _ := .ok ()
  codePins _ := .ok ()
  dataSchemas _ := .ok ()
  poolSettings _ := .ok ()

def validated : ValidatedFlowDefinitionClosure := ⟨closure, limits, 4, 1⟩

theorem admitted_validated : admitted.validated checks = .ok validated := by decide +kernel

def owner : FactoryClaimOwnership := ⟨⟨"worker"⟩, ⟨⟨3⟩, ⟨0⟩, ⟨50⟩, by decide⟩⟩

/-- The identity with the given number. -/
def identity {entity : FactoryEntityKind} (number : Nat) : FactoryId entity :=
  if h : number ≠ 0 then ⟨number, h⟩ else ⟨1, Nat.one_ne_zero⟩

def attemptId (number : Nat) : NodeAttemptId := identity number

/-- The sequence value with the given number. -/
def sequence (number : Nat) : Sequence :=
  if h : 0 < number ∧ number < 2 ^ 64 then ⟨number, h.1, h.2⟩ else .initial

/-- The attempt with the given number, named after it. -/
def input (key : String) (kind : FlowNodeKind) (number : Nat) : NodeAttemptInput :=
  { id := attemptId number, nodeKey := ⟨key⟩, nodeKind := kind, number := sequence number,
    budget, startedAt := ⟨1⟩, deadline := ⟨20⟩, execution := .builtIn, ownership := owner }

/-- The row `NodeAttempt.new` builds from an input of the root's only cycle. -/
def attemptRow (input : NodeAttemptInput) : NodeAttempt where
  id := input.id
  factoryRunId := root.factoryRunId
  flowRunId := root.id
  workflowCycleId := (WorkflowCycle.initial root).id
  nodeKey := input.nodeKey
  nodeKind := input.nodeKind
  number := input.number
  budget := input.budget
  startedAt := input.startedAt
  deadline := input.deadline
  execution := input.execution
  ownership := input.ownership
  retryOf := none

def result : NodeAttemptCompletionInput := ⟨okOutcome.key, okOutcome.schema, owner, {}, ⟨5⟩⟩

/-- The left branch and the join run before the right branch starts. -/
def leftFirst : List FlowCommand :=
  [.dispatch root.id (input "split" .fanOut 1), .complete (attemptId 1) result,
   .dispatch root.id (input "left" .join 2), .complete (attemptId 2) result,
   .dispatch root.id (input "merge" .join 3), .complete (attemptId 3) result]

def history : FlowRuntimeHistory :=
  (FlowInterpreter.run ⟨validated⟩ FlowInterpreter.everyStep root leftFirst).getD (FlowRuntimeHistory.start root)

end Diamond

end OctaCity.Factory.Flow
