/-
  OctaCity.Factory.Flow.Nesting

  Nested Flow Runs as a tree, and the test of active authority that climbs it
  (octacity-server-factory, `flow/history.rs`, `is_current_cycle`).  No check
  looks at a chain of parents.
-/
import OctaCity.Factory.Flow.Expansion
import OctaCity.Factory.Flow.Sequences

namespace OctaCity.Factory.Flow

open FlowRuntimeHistory Lib List Option

/-! ## Climbing -/

namespace FlowRuntimeHistory

/-- The Flow Run whose call started this one. -/
def parentRun? (history : FlowRuntimeHistory) (flow : FlowRun) : Option FlowRun :=
  flow.parent.bind fun parent => history.flowRun? parent.flowRunId

/-- The Flow Run reached by following the parent that many times. -/
def ancestor? (history : FlowRuntimeHistory) : Nat → FlowRun → Option FlowRun
  | 0, flow => some flow
  | steps + 1, flow => (history.parentRun? flow).bind (history.ancestor? steps)

/-- The attempt that called the nested Flow Run. -/
def call? (history : FlowRuntimeHistory) (parent : FlowRunParent) : Option NodeAttempt :=
  history.attempts.find? fun row =>
    row.id = parent.nodeAttemptId ∧ row.flowRunId = parent.flowRunId

/-- The last of the cycles with the greatest number. -/
def latestCycle? (history : FlowRuntimeHistory) (flow : FlowRunId) : Option WorkflowCycle :=
  (history.runCycles flow).reverse.argmax (·.number)

/-- The climb of `isCurrentCycle`, at most the given number of levels. -/
def isCurrentWithin (history : FlowRuntimeHistory) : Nat → WorkflowCycleId → Bool
  | 0, _ => false
  | levels + 1, id =>
    match history.cycles.find? (·.id = id) with
    | none => false
    | some cycle =>
      if history.latestCycle? cycle.flowRunId ≠ some cycle then false
      else
        match history.flowRun? cycle.flowRunId with
        | none => false
        | some flow =>
          match flow.parent with
          | none => true
          | some parent =>
            match history.call? parent with
            | none => false
            | some call => history.isCurrentWithin levels call.workflowCycleId

/-- Tests active authority through the owning cycle and every enclosing call. -/
def isCurrentCycle (history : FlowRuntimeHistory) (id : WorkflowCycleId) : Bool :=
  history.isCurrentWithin (history.flowRuns.length + 1) id

end FlowRuntimeHistory

/-- The call started the Flow Run, or a Flow Run around it. -/
inductive Encloses (history : FlowRuntimeHistory) : NodeAttempt → FlowRunId → Prop
  | direct {flow : FlowRun} {parent : FlowRunParent} {call : NodeAttempt}
      (hflow : flow ∈ history.flowRuns) (hpar : flow.parent = some parent)
      (hcall : call ∈ history.attempts) (hid : call.id = parent.nodeAttemptId)
      (howner : call.flowRunId = parent.flowRunId) : Encloses history call flow.id
  | outer {flow : FlowRunId} {inner call : NodeAttempt} (hinner : Encloses history inner flow)
      (hcall : Encloses history call inner.flowRunId) : Encloses history call flow

theorem Encloses.mem {history : FlowRuntimeHistory} {call : NodeAttempt} {flow : FlowRunId}
    (h : Encloses history call flow) : call ∈ history.attempts := by
  induction h with
  | direct _ _ hcall => exact hcall
  | outer _ _ _ hcall => exact hcall

/-- The cycle has the greatest number of its Flow Run. -/
def IsNewest (history : FlowRuntimeHistory) (cycle : WorkflowCycle) : Prop :=
  ∀ other ∈ history.cycles, other.flowRunId = cycle.flowRunId → other ≠ cycle →
    other.number < cycle.number

section Nesting

variable {checks : AdmissionChecks} {admitted : AdmittedFlow}
  {validated : ValidatedFlowDefinitionClosure} {history : FlowRuntimeHistory}

/-! ## Depth -/

/-- Every pinned definition nests within the depth measured at the root. -/
theorem SoundClosure.nestsWithin (hsound : SoundClosure validated) {reference : FlowDefinitionRef}
    {definition : FlowDefinition}
    (hdef : validated.closure.definition reference = some definition) :
    NestsWithin validated.closure validated.maxDepth reference := by
  obtain ⟨hmem, hreference⟩ := PinnedFlowDefinitionClosure.definition_mem hdef
  have hreachable := validated.closure.reachable reference
    (mem_map.mpr ⟨definition, hmem, hreference⟩)
  refine Graph.search_induction ?_ ?_ ?_ reference hreachable
  · -- A called definition nests less deep than its caller.
    intro caller hcaller called hcalled
    cases hfind : validated.closure.definitions.find? (·.reference = caller) with
    | none =>
      rw [hfind] at hcalled
      cases hcalled
    | some found =>
      rw [hfind] at hcalled
      cases hdepth : validated.maxDepth with
      | zero =>
        rw [hdepth] at hcaller
        cases hcaller
      | succ depth =>
        rw [hdepth] at hcaller
        obtain ⟨same, hsame, hchildren⟩ := hcaller
        rw [PinnedFlowDefinitionClosure.definition, hfind] at hsame
        cases hsame
        exact (hchildren called hcalled).succ
  · intro root hroot
    rw [mem_singleton.mp hroot]
    exact NestsWithin.of_depth hsound.measured
  · rintro _ ⟨⟩

variable {flow : FlowRun} {steps : Nat}

namespace Accepted

variable (h : Accepted admitted validated history)
include h

theorem flowRun?_eq (hflow : flow ∈ history.flowRuns) : history.flowRun? flow.id = some flow :=
  (find?_key_eq_some h.runs).mpr ⟨hflow, rfl⟩

/-- Two Flow Runs are never started by the same call. -/
theorem parent_unique {left right : FlowRun} (hleft : left ∈ history.flowRuns)
    (hright : right ∈ history.flowRuns) {parent : FlowRunParent}
    (hleftOf : left.parent = some parent) (hrightOf : right.parent = some parent) : left = right :=
  eq_of_countP_eq_one ((h.run left hleft).parent parent hleftOf).1 hleft hright
    (by simpa using hleftOf) (by simpa using hrightOf)

theorem eq_root (hroot : admitted.rootRun.parent = none)
    (hflow : flow ∈ history.flowRuns) (hpar : flow.parent = none) : flow = admitted.rootRun :=
  eq_of_countP_eq_one h.rooted hflow h.root (by simpa using hpar) (by simpa using hroot)

theorem parentRun? (hflow : flow ∈ history.flowRuns) {parent : FlowRunParent}
    (hpar : flow.parent = some parent) : ∃ outer ∈ history.flowRuns, ∃ call ∈ history.attempts,
      history.parentRun? flow = some outer ∧ history.call? parent = some call ∧
      outer.id = parent.flowRunId ∧ call.id = parent.nodeAttemptId ∧
      call.flowRunId = outer.id ∧ Calls validated.closure flow.definition outer.definition := by
  obtain ⟨-, outer, houter, call, hcall, houterId, hcallId, hcallOwner, hnested⟩ :=
    (h.run flow hflow).parent parent hpar
  obtain ⟨definition, hdef⟩ := (h.run outer houter).definition
  obtain ⟨node, hnode, hsflow⟩ := nestedDefinition_eq_some hdef hnested
  refine ⟨outer, houter, call, hcall, ?_, ?_, houterId, hcallId, hcallOwner, definition, hdef,
    FlowDefinition.mem_subflows (FlowDefinition.node_mem hnode).1 hsflow⟩
  · rw [FlowRuntimeHistory.parentRun?, hpar, bind_some, ← houterId]
    exact h.flowRun?_eq houter
  · unfold FlowRuntimeHistory.call?
    cases hfind : history.attempts.find? fun row =>
        row.id = parent.nodeAttemptId ∧ row.flowRunId = parent.flowRunId with
    | none =>
      have hno := List.find?_eq_none.mp hfind call hcall
      simp [hcallId, hcallOwner, houterId] at hno
    | some row =>
      have hrow := List.find?_some hfind
      simp only [decide_eq_true_eq] at hrow
      rw [h.attempt_unique (mem_of_find?_eq_some hfind) hcall (by rw [hrow.1, hcallId])]

/-- A Flow Run that nests deeper than `maxDepth - levels` reaches the root in
    fewer than `levels` steps. -/
theorem ancestor?_root (hsound : SoundClosure validated)
    (hroot : admitted.rootRun.parent = none) (levels : Nat) (hle : levels ≤ validated.maxDepth) :
    ∀ flow ∈ history.flowRuns,
      ¬ NestsWithin validated.closure (validated.maxDepth - levels) flow.definition →
      ∃ steps < levels, history.ancestor? steps flow = some admitted.rootRun := by
  induction levels with
  | zero =>
    intro flow hflow hdeep
    obtain ⟨definition, hdef⟩ := (h.run flow hflow).definition
    exact absurd (hsound.nestsWithin hdef) hdeep
  | succ levels ih =>
    intro flow hflow hdeep
    cases hpar : flow.parent with
    | none =>
      refine ⟨0, Nat.succ_pos _, ?_⟩
      rw [h.eq_root hroot hflow hpar]
      rfl
    | some parent =>
      obtain ⟨outer, houter, -, -, hclimb, -, -, -, -, definition, hdef, hcalled⟩ :=
        h.parentRun? hflow hpar
      -- The caller nests one level deeper than the called definition.
      have houterDeep : ¬ NestsWithin validated.closure (validated.maxDepth - levels)
          outer.definition := by
        intro hnests
        rw [show validated.maxDepth - levels = (validated.maxDepth - (levels + 1)) + 1 by omega]
          at hnests
        obtain ⟨found, hfound, hchildren⟩ := hnests
        rw [hdef] at hfound
        cases hfound
        exact hdeep (hchildren _ hcalled)
      obtain ⟨steps, hsteps, hreach⟩ := ih (by omega) outer houter houterDeep
      refine ⟨steps + 1, by omega, ?_⟩
      rw [ancestor?, hclimb, bind_some]
      exact hreach

/-- Every Flow Run reaches the root within the measured depth. -/
theorem reaches_root (hsound : SoundClosure validated) (hroot : admitted.rootRun.parent = none)
    (hflow : flow ∈ history.flowRuns) :
    ∃ steps < validated.maxDepth, history.ancestor? steps flow = some admitted.rootRun := by
  refine h.ancestor?_root hsound hroot validated.maxDepth (le_refl _) flow hflow ?_
  rw [Nat.sub_self]
  exact id

end Accepted

/-! ## The iteration cap -/

section Ancestors

variable {root : FlowRun}

theorem FlowRuntimeHistory.ancestor?_add (first second : Nat) (flow : FlowRun) :
    history.ancestor? (first + second) flow =
      (history.ancestor? first flow).bind (history.ancestor? second) := by
  induction first generalizing flow with
  | zero => rw [Nat.zero_add, ancestor?, bind_some]
  | succ first ih =>
    rw [Nat.succ_add, ancestor?, ancestor?, bind_assoc]
    exact bind_congr fun outer _ => ih outer

theorem FlowRuntimeHistory.ancestor?_mem {outer : FlowRun}
    (hflow : flow ∈ history.flowRuns) (h : history.ancestor? steps flow = some outer) :
    outer ∈ history.flowRuns := by
  induction steps generalizing flow with
  | zero =>
    cases h
    exact hflow
  | succ steps ih =>
    obtain ⟨next, hnext, h⟩ := bind_eq_some_iff.mp h
    obtain ⟨parent, -, hfind⟩ := bind_eq_some_iff.mp hnext
    exact ih (mem_of_find?_eq_some hfind) h

/-- A Flow Run is one distance away from a Flow Run without a parent. -/
theorem FlowRuntimeHistory.ancestor?_steps_unique (hroot : root.parent = none) {first second : Nat}
    (hfirst : history.ancestor? first flow = some root)
    (hsnd : history.ancestor? second flow = some root) : first = second := by
  have hstop : ∀ steps, history.ancestor? (steps + 1) root = none := by
    intro steps
    rw [ancestor?, FlowRuntimeHistory.parentRun?, hroot]
    rfl
  induction first generalizing flow second with
  | zero =>
    cases hfirst
    cases second with
    | zero => rfl
    | succ second =>
      rw [hstop] at hsnd
      cases hsnd
  | succ first ih =>
    cases second with
    | zero =>
      cases hsnd
      rw [hstop] at hfirst
      cases hfirst
    | succ second =>
      obtain ⟨outer, houter, hfirst⟩ := bind_eq_some_iff.mp hfirst
      rw [ancestor?, houter, bind_some] at hsnd
      rw [ih hfirst hsnd]

/-- The Flow Runs on the way to the root are different ones. -/
theorem FlowRuntimeHistory.ancestor?_steps_lt (hroot : root.parent = none)
    (hflow : flow ∈ history.flowRuns)
    (h : history.ancestor? steps flow = some root) : steps < history.flowRuns.length := by
  have hsplit : ∀ i ≤ steps, ∃ outer, history.ancestor? i flow = some outer ∧
      history.ancestor? (steps - i) outer = some root := by
    intro i hi
    rw [show steps = i + (steps - i) by omega, ancestor?_add] at h
    exact bind_eq_some_iff.mp h
  have hcard : (Finset.range (steps + 1)).card ≤ history.flowRuns.toFinset.card := by
    refine Finset.card_le_card_of_injOn (fun i => (history.ancestor? i flow).getD root) ?_ ?_
    · intro i hi
      obtain ⟨outer, houter, -⟩ := hsplit i (by simpa [Nat.lt_succ_iff] using hi)
      simpa [houter] using ancestor?_mem hflow houter
    · intro i hi j hj heq
      obtain ⟨outer, houter, hrest⟩ := hsplit i (by simpa [Nat.lt_succ_iff] using hi)
      obtain ⟨other, hother, hotherRest⟩ := hsplit j (by simpa [Nat.lt_succ_iff] using hj)
      simp only [houter, hother, getD_some] at heq
      rw [← heq] at hotherRest
      have hsteps := ancestor?_steps_unique hroot hrest hotherRest
      simp only [Finset.coe_range, Set.mem_Iio] at hi hj
      omega
  have hlen := toFinset_card_le history.flowRuns
  rw [Finset.card_range] at hcard
  omega

end Ancestors

namespace Accepted

variable (h : Accepted admitted validated history)
include h

variable {cycle : WorkflowCycle}

section

variable (hcycle : cycle ∈ history.cycles) (hflow : flow ∈ history.flowRuns)
  (howner : cycle.flowRunId = flow.id)

include hcycle hflow howner

theorem latestCycle?_eq :
    history.latestCycle? cycle.flowRunId = some cycle ↔ IsNewest history cycle := by
  have hmem : ∀ row, row ∈ (history.runCycles cycle.flowRunId).reverse ↔
      row ∈ history.cycles ∧ row.flowRunId = cycle.flowRunId :=
    fun row => by rw [mem_reverse, mem_runCycles]
  constructor
  · intro hlate other hother hotherOwner hne
    have hle := le_of_mem_argmax ((hmem other).mpr ⟨hother, hotherOwner⟩) hlate
    refine lt_of_le_of_ne hle fun hnum => hne ?_
    exact h.cycle_number_unique hflow _ hother hcycle (hotherOwner.trans howner) howner
      (congrArg Sequence.value hnum) rfl
  · intro hnew
    cases hlate : history.latestCycle? cycle.flowRunId with
    | none =>
      have hnil := argmax_eq_none.mp hlate
      have hself := (hmem cycle).mpr ⟨hcycle, rfl⟩
      rw [hnil] at hself
      cases hself
    | some latest =>
      obtain ⟨hin, hlatestOwner⟩ := (hmem latest).mp (argmax_mem hlate)
      have hle := le_of_mem_argmax ((hmem cycle).mpr ⟨hcycle, rfl⟩) hlate
      by_contra hne
      have hlt := hnew latest hin hlatestOwner fun heq => hne (by rw [heq])
      exact absurd hle (not_le.mpr hlt)

/-- One level of the climb. -/
theorem isCurrentWithin_succ (levels : Nat) :
    history.isCurrentWithin (levels + 1) cycle.id = true ↔ IsNewest history cycle ∧
      ∀ parent, flow.parent = some parent → ∀ call, history.call? parent = some call →
        history.isCurrentWithin levels call.workflowCycleId = true := by
  have hfind : history.cycles.find? (·.id = cycle.id) = some cycle :=
    (find?_key_eq_some h.cycles).mpr ⟨hcycle, rfl⟩
  have hrun : history.flowRun? cycle.flowRunId = some flow := by
    rw [howner]
    exact h.flowRun?_eq hflow
  rw [isCurrentWithin, hfind, ← h.latestCycle?_eq hcycle hflow howner]
  simp only [hrun]
  by_cases hlate : history.latestCycle? cycle.flowRunId = some cycle
  · cases hpar : flow.parent with
    | none => simp [hlate]
    | some parent =>
      obtain ⟨-, -, call, -, -, hcall, -⟩ := h.parentRun? hflow hpar
      simp [hlate, hcall]
  · simp [hlate]

end

/-- The climb ends at the root, so more levels than the way there change nothing. -/
theorem isCurrentWithin_stable (hroot : admitted.rootRun.parent = none) :
    ∀ {flow : FlowRun} {cycle : WorkflowCycle}, flow ∈ history.flowRuns →
      cycle ∈ history.cycles → cycle.flowRunId = flow.id →
      history.ancestor? steps flow = some admitted.rootRun → ∀ {left right : Nat}, steps < left →
      steps < right →
      history.isCurrentWithin left cycle.id = history.isCurrentWithin right cycle.id := by
  induction steps with
  | zero =>
    intro flow cycle hflow hcycle howner hclimb left right hleft hright
    cases hclimb
    obtain ⟨left, rfl⟩ : ∃ levels, left = levels + 1 := ⟨left - 1, by omega⟩
    obtain ⟨right, rfl⟩ : ∃ levels, right = levels + 1 := ⟨right - 1, by omega⟩
    rw [Bool.eq_iff_iff, h.isCurrentWithin_succ hcycle hflow howner,
      h.isCurrentWithin_succ hcycle hflow howner]
    simp [hroot]
  | succ steps ih =>
    intro flow cycle hflow hcycle howner hclimb left right hleft hright
    obtain ⟨left, rfl⟩ : ∃ levels, left = levels + 1 := ⟨left - 1, by omega⟩
    obtain ⟨right, rfl⟩ : ∃ levels, right = levels + 1 := ⟨right - 1, by omega⟩
    rw [Bool.eq_iff_iff, h.isCurrentWithin_succ hcycle hflow howner,
      h.isCurrentWithin_succ hcycle hflow howner]
    refine and_congr_right fun _ => forall₂_congr fun parent hpar =>
      forall₂_congr fun call hcall => ?_
    obtain ⟨outer, houter, row, hrow, hnext, hcall', -, -, hrowOwner, -⟩ :=
      h.parentRun? hflow hpar
    rw [hcall] at hcall'
    cases hcall'
    obtain ⟨run, hrun, owned, howned, _, _, hrunId, hownedId, -, -, -, hownedOwner, -⟩ :=
      (h.attempt call hrow).bound
    rw [ancestor?, hnext, bind_some] at hclimb
    have hsame := ih houter howned (by rw [hownedOwner, hrunId, hrowOwner]) hclimb
      (Nat.lt_of_succ_lt_succ hleft) (Nat.lt_of_succ_lt_succ hright)
    rw [← hownedId, hsame]

section

variable (hsound : SoundClosure validated) (hroot : admitted.rootRun.parent = none)

include hsound hroot

/-- The cap exceeds every way to the root. -/
theorem isCurrentWithin_eq {levels : Nat} (hlevels : history.flowRuns.length ≤ levels)
    (id : WorkflowCycleId) (hflow : flow ∈ history.flowRuns) (hcycle : cycle ∈ history.cycles)
    (howner : cycle.flowRunId = flow.id) (hid : cycle.id = id) :
    history.isCurrentWithin levels id = history.isCurrentCycle id := by
  obtain ⟨steps, -, hclimb⟩ := h.reaches_root hsound hroot hflow
  have hsteps := ancestor?_steps_lt hroot hflow hclimb
  rw [← hid]
  exact h.isCurrentWithin_stable hroot hflow hcycle howner hclimb (by omega) (by omega)

/-- A cycle is current when it is the newest and the call around it lies in a
    current cycle. -/
theorem isCurrentCycle_step (hcycle : cycle ∈ history.cycles) (hflow : flow ∈ history.flowRuns)
    (howner : cycle.flowRunId = flow.id) :
    history.isCurrentCycle cycle.id = true ↔ IsNewest history cycle ∧
      ∀ parent, flow.parent = some parent → ∀ call, history.call? parent = some call →
        history.isCurrentCycle call.workflowCycleId = true := by
  rw [isCurrentCycle, h.isCurrentWithin_succ hcycle hflow howner]
  refine and_congr_right fun _ => forall₂_congr fun parent hpar =>
    forall₂_congr fun call hcall => ?_
  have hmem : call ∈ history.attempts := mem_of_find?_eq_some hcall
  obtain ⟨run, hrun, owned, howned, _, _, -, hownedId, -, -, -, hownedOwner, -⟩ :=
    (h.attempt call hmem).bound
  rw [h.isCurrentWithin_eq hsound hroot (le_refl _) _ hrun howned hownedOwner hownedId]

/-- Every call around a current cycle lies in a current cycle. -/
theorem isCurrentCycle_encloses {call : NodeAttempt} {flow : FlowRunId}
    (hencloses : Encloses history call flow) :
    ∀ cycle ∈ history.cycles, cycle.flowRunId = flow → history.isCurrentCycle cycle.id = true →
      history.isCurrentCycle call.workflowCycleId = true := by
  induction hencloses with
  | @direct flow parent call hflow hpar hcall hid howner =>
    intro cycle hcycle hcycleOwner hcur
    obtain ⟨-, hcalls⟩ :=
      (h.isCurrentCycle_step hsound hroot hcycle hflow hcycleOwner).mp hcur
    obtain ⟨_, -, row, hrow, -, hfound, -, hrowId, -, -⟩ := h.parentRun? hflow hpar
    rw [h.attempt_unique hcall hrow (by rw [hid, hrowId])]
    exact hcalls parent hpar row hfound
  | @outer flow inner call hinner _ ihinner ihcall =>
    intro cycle hcycle hcycleOwner hcur
    have hinnerCurrent := ihinner cycle hcycle hcycleOwner hcur
    -- The inner call is an attempt of the history and lies in one of its cycles.
    obtain ⟨run, -, owned, howned, _, _, hrunId, hownedId, -, -, -, hownedOwner, -⟩ :=
      (h.attempt inner hinner.mem).bound
    refine ihcall owned howned (by rw [hownedOwner, hrunId]) ?_
    rw [hownedId]
    exact hinnerCurrent

theorem isCurrentCycle_iff {id : WorkflowCycleId} :
    history.isCurrentCycle id = true ↔ ∃ cycle ∈ history.cycles, cycle.id = id ∧
      ∃ flow ∈ history.flowRuns, cycle.flowRunId = flow.id ∧ IsNewest history cycle ∧
        ∀ call, Encloses history call flow.id →
          history.isCurrentCycle call.workflowCycleId = true := by
  constructor
  · intro hcur
    have hfound := hcur
    rw [isCurrentCycle, isCurrentWithin] at hfound
    split at hfound
    · cases hfound
    rename_i cycle hfind
    obtain ⟨hcycle, hid⟩ := (find?_key_eq_some h.cycles).mp hfind
    split at hfound
    · cases hfound
    split at hfound
    · cases hfound
    rename_i flow hrun
    obtain ⟨hflow, hflowId⟩ := (find?_key_eq_some h.runs).mp hrun
    subst hid
    obtain ⟨hnew, -⟩ :=
      (h.isCurrentCycle_step hsound hroot hcycle hflow hflowId.symm).mp hcur
    refine ⟨cycle, hcycle, rfl, flow, hflow, hflowId.symm, hnew, ?_⟩
    intro call hcall
    exact h.isCurrentCycle_encloses hsound hroot hcall cycle hcycle hflowId.symm hcur
  · rintro ⟨cycle, hcycle, rfl, flow, hflow, howner, hnew, hcalls⟩
    refine (h.isCurrentCycle_step hsound hroot hcycle hflow howner).mpr ⟨hnew, ?_⟩
    intro parent hpar call hcall
    obtain ⟨outer, -, row, hrow, -, hfound, houterId, hrowId, hrowOwner, -⟩ :=
      h.parentRun? hflow hpar
    rw [hcall] at hfound
    cases hfound
    exact hcalls call (.direct hflow hpar hrow hrowId (by rw [hrowOwner, houterId]))

/-- More levels than the cap allows decide nothing else. -/
theorem isCurrentWithin_cap {levels : Nat} (hlevels : history.flowRuns.length < levels)
    (id : WorkflowCycleId) : history.isCurrentWithin levels id = history.isCurrentCycle id := by
  by_cases hbound : ∃ cycle ∈ history.cycles, cycle.id = id ∧
      ∃ flow ∈ history.flowRuns, cycle.flowRunId = flow.id
  · obtain ⟨cycle, hcycle, hid, flow, hflow, howner⟩ := hbound
    exact h.isCurrentWithin_eq hsound hroot hlevels.le id hflow hcycle howner hid
  · -- Without a cycle of a known Flow Run the first level already fails.
    have hfail : ∀ n, history.isCurrentWithin (n + 1) id = false := by
      intro n
      rw [isCurrentWithin]
      split
      · rfl
      rename_i cycle hfind
      obtain ⟨hcycle, hid⟩ := (find?_key_eq_some h.cycles).mp hfind
      split
      · rfl
      split
      · rfl
      rename_i flow hrun
      obtain ⟨hflow, hflowId⟩ := (find?_key_eq_some h.runs).mp hrun
      exact absurd ⟨cycle, hcycle, hid, flow, hflow, hflowId.symm⟩ hbound
    obtain ⟨levels, rfl⟩ : ∃ n, levels = n + 1 := ⟨levels - 1, by omega⟩
    rw [isCurrentCycle, hfail, hfail]

end

end Accepted

/-- In an accepted history the nested Flow Runs form a tree no deeper than measured at
    admission, and the climb that decides which cycles are current never meets its cap. -/
theorem accepted_runs_form_tree (h : validateFlowRuntimeHistory checks admitted history = .ok ())
    (hvalidated : admitted.validated checks = .ok validated) :
    (∀ flow ∈ history.flowRuns, ∃ steps < validated.maxDepth,
      history.ancestor? steps flow = some admitted.rootRun) ∧
    (∀ left ∈ history.flowRuns, ∀ right ∈ history.flowRuns, ∀ parent,
      left.parent = some parent → right.parent = some parent → left = right) ∧
    ∀ id, (history.isCurrentCycle id = true ↔ ∃ cycle ∈ history.cycles, cycle.id = id ∧
        ∃ flow ∈ history.flowRuns, cycle.flowRunId = flow.id ∧ IsNewest history cycle ∧
          ∀ call, Encloses history call flow.id →
            history.isCurrentCycle call.workflowCycleId = true) ∧
      ∀ levels, history.flowRuns.length < levels →
        history.isCurrentWithin levels id = history.isCurrentCycle id := by
  obtain ⟨found, hfound, hacc⟩ := validateFlowRuntimeHistory_eq_ok.mp h
  rw [hvalidated] at hfound
  cases hfound
  obtain ⟨hsound, -, -, hbindings⟩ := AdmittedFlow.validated_eq_ok hvalidated
  have hroot := (AdmittedFlow.validateRootBindings_eq_ok hbindings).2
  refine ⟨?_, ?_, ?_⟩
  · intro flow hflow
    exact hacc.reaches_root hsound hroot hflow
  · intro left hleft right hright parent hleftOf hrightOf
    exact hacc.parent_unique hleft hright hleftOf hrightOf
  · intro id
    refine ⟨hacc.isCurrentCycle_iff hsound hroot, ?_⟩
    intro levels hlevels
    exact hacc.isCurrentWithin_cap hsound hroot hlevels id

end Nesting

/-- The called Flow Run is one step below the root, and its cycle is current
    as long as the call's is. -/
theorem Nested.called_run_in_tree : ∃ flow ∈ Nested.history.flowRuns,
    (∃ steps < 2, Nested.history.ancestor? steps flow = some Diamond.root) ∧
    (Nested.history.isCurrentCycle (FlowRunId.initialCycleId Nested.childRun) = true ↔
      ∃ cycle ∈ Nested.history.cycles, cycle.id = FlowRunId.initialCycleId Nested.childRun ∧
        ∃ flow ∈ Nested.history.flowRuns, cycle.flowRunId = flow.id ∧
          IsNewest Nested.history cycle ∧ ∀ call, Encloses Nested.history call flow.id →
            Nested.history.isCurrentCycle call.workflowCycleId = true) ∧
    Nested.history.isCurrentCycle (FlowRunId.initialCycleId Nested.childRun) = true := by
  have hacc : validateFlowRuntimeHistory Diamond.checks Nested.admitted Nested.history =
      .ok () := by decide +kernel
  have hvalidated : Nested.admitted.validated Diamond.checks = .ok Nested.validated := by
    decide +kernel
  have hchild : ∃ flow ∈ Nested.history.flowRuns, flow.id = Nested.childRun := by decide +kernel
  obtain ⟨hroot, -, hcur⟩ := accepted_runs_form_tree hacc hvalidated
  obtain ⟨flow, hflow, -⟩ := hchild
  exact ⟨flow, hflow, hroot flow hflow, (hcur _).1, by decide⟩

end OctaCity.Factory.Flow
