/-
  OctaCity.Factory.Flow.Position

  What the interpreter's position says, read off the rows of a cycle: which
  nodes are ready, when a restart is reported and when a terminal is.
-/
import OctaCity.Factory.Flow.Acceptance

namespace OctaCity.Factory.Flow

open Lib List

namespace FlowInterpreter

variable {interpreter : FlowInterpreter} {flow : FlowRun} {cycle : WorkflowCycle}
  {history : FlowRuntimeHistory} {definition : FlowDefinition}

/-! ## The scan over a cycle -/

variable {attempts : List NodeAttempt} {scan : Scan} {directive : FlowDirective}
  {key : FactoryKey}

theorem mem_ready_apply {attempt : NodeAttempt} :
    key ∈ (Scan.apply attempts attempt scan directive).ready.rows ↔ key ∈ scan.ready.rows ∨
        (isConsumed attempts attempt key = false ∧ directive.node? = some key) := by
  have hoffer : ∀ node, key ∈ (scan.offer attempts attempt node).ready.rows ↔
      key ∈ scan.ready.rows ∨ (isConsumed attempts attempt key = false ∧ some node = some key) := by
    intro node
    unfold Scan.offer
    split
    · rename_i hcons
      constructor
      · exact Or.inl
      · rintro (h | ⟨hnot, heq⟩)
        · exact h
        · cases heq
          rw [hnot] at hcons
          cases hcons
    · rename_i hcons
      rw [OrdSet.mem_insert]
      constructor
      · rintro (rfl | h)
        · exact Or.inr ⟨by simpa using hcons, rfl⟩
        · exact Or.inl h
      · rintro (h | ⟨-, heq⟩)
        · exact Or.inr h
        · exact Or.inl (Option.some.inj heq).symm
  cases directive with
  | restartCycle node source =>
    simp only [Scan.apply, FlowDirective.node?]
    split <;> simp
  | executeNode _ node _ _ => exact hoffer node
  | enterSubflow node _ _ => exact hoffer node
  | complete terminal digest =>
    simp only [Scan.apply, FlowDirective.node?]
    split
    · simp
    · split <;> simp

theorem restart_apply {attempt : NodeAttempt} :
    (Scan.apply attempts attempt scan directive).restart = scan.restart.or directive.restart? := by
  cases directive with
  | restartCycle node source =>
    simp only [Scan.apply, FlowDirective.restart?]
    cases hrest : scan.restart <;> simp [hrest]
  | executeNode _ node _ _ =>
    simp only [Scan.apply, Scan.offer, FlowDirective.restart?]
    split <;> simp
  | enterSubflow node _ _ =>
    simp only [Scan.apply, Scan.offer, FlowDirective.restart?]
    split <;> simp
  | complete terminal digest =>
    simp only [Scan.apply, FlowDirective.restart?]
    split
    · simp
    · split <;> simp

theorem terminal_apply {attempt : NodeAttempt} :
    (Scan.apply attempts attempt scan directive).terminal.isSome =
      (scan.terminal.isSome || directive.isComplete) := by
  cases directive with
  | restartCycle node source =>
    simp only [Scan.apply, FlowDirective.isComplete]
    split <;> simp
  | executeNode _ node _ _ =>
    simp only [Scan.apply, Scan.offer, FlowDirective.isComplete]
    split <;> simp
  | enterSubflow node _ _ =>
    simp only [Scan.apply, Scan.offer, FlowDirective.isComplete]
    split <;> simp
  | complete terminal digest =>
    simp only [Scan.apply, FlowDirective.isComplete]
    split
    · simp
    · rename_i hsome
      split <;> simp [hsome]

theorem mem_ready_foldl {attempt : NodeAttempt} (directives : List FlowDirective) (scan : Scan) :
    key ∈ (directives.foldl (Scan.apply attempts attempt) scan).ready.rows ↔
      key ∈ scan.ready.rows ∨ (isConsumed attempts attempt key = false ∧
        ∃ directive ∈ directives, directive.node? = some key) := by
  induction directives generalizing scan with
  | nil => simp
  | cons directive rest ih =>
    rw [foldl_cons, ih, mem_ready_apply, exists_mem_cons_iff]
    tauto

theorem restart_foldl {attempt : NodeAttempt} (directives : List FlowDirective) (scan : Scan) :
    (directives.foldl (Scan.apply attempts attempt) scan).restart =
      scan.restart.or (directives.findSome? FlowDirective.restart?) := by
  induction directives generalizing scan with
  | nil => simp
  | cons directive rest ih =>
    rw [foldl_cons, ih, restart_apply, List.findSome?_cons]
    cases scan.restart <;> cases directive.restart? <;> rfl

theorem terminal_foldl {attempt : NodeAttempt} (directives : List FlowDirective) (scan : Scan) :
    (directives.foldl (Scan.apply attempts attempt) scan).terminal.isSome = true ↔
      scan.terminal.isSome = true ∨ ∃ directive ∈ directives, directive.isComplete = true := by
  induction directives generalizing scan with
  | nil => simp
  | cons directive rest ih =>
    rw [foldl_cons, ih, terminal_apply, Bool.or_eq_true, exists_mem_cons_iff]
    tauto

/-- What a scan over some attempts of the cycle has collected. -/
structure ScanSpec (definition : FlowDefinition) (history : FlowRuntimeHistory)
    (flow : FlowRunId) (attempts visited : List NodeAttempt) (start result : Scan) : Prop where
  ready : ∀ key, key ∈ result.ready.rows ↔ key ∈ start.ready.rows ∨
    ∃ attempt ∈ visited, isConsumed attempts attempt key = false ∧
      Offers definition history flow attempt key
  restart_none : result.restart = none ↔ start.restart = none ∧
    ∀ attempt ∈ visited, ∀ key, ¬ Restarts definition history flow attempt key
  restart_kept : ∀ pair, start.restart = some pair → result.restart = some pair
  restart_some : start.restart = none → ∀ key source, result.restart = some (key, source) →
    ∃ before attempt after, visited = before ++ attempt :: after ∧ source = attempt.id ∧
      Restarts definition history flow attempt key ∧
      ∀ earlier ∈ before, ∀ other, ¬ Restarts definition history flow earlier other
  terminal : result.terminal.isSome = true ↔ start.terminal.isSome = true ∨
    ∃ attempt ∈ visited, Ends definition history flow attempt

theorem ScanSpec.refl (attempts : List NodeAttempt) (scan : Scan) :
    ScanSpec definition history flow.id attempts [] scan scan := by
  refine ⟨?_, ?_, fun _ h => h, ?_, ?_⟩
  · intro key
    simp
  · simp
  · intro hnone key source hsome
    rw [hnone] at hsome
    cases hsome
  · simp

variable {start result : Scan} {visited : List NodeAttempt} {progress : FlowProgress}
  {ready : OrdSet FactoryKey}

/-- One more attempt, visited first. -/
theorem ScanSpec.cons {rest : List NodeAttempt} {attempt : NodeAttempt}
    {directives : List FlowDirective}
    (hspec : DirectivesSpec definition history flow.id attempt directives)
    (h : ScanSpec definition history flow.id attempts rest
      (directives.foldl (Scan.apply attempts attempt) start) result) :
    ScanSpec definition history flow.id attempts (attempt :: rest) start result := by
  have hfind : directives.findSome? FlowDirective.restart? = none ↔
      ∀ key, ¬ Restarts definition history flow.id attempt key := by
    rw [List.findSome?_eq_none_iff]
    constructor
    · intro hnone key hrest
      obtain ⟨directive, hmem, hsome⟩ := (hspec.restart key attempt.id).mpr ⟨rfl, hrest⟩
      rw [hnone directive hmem] at hsome
      cases hsome
    · intro hnone directive hmem
      cases hsome : directive.restart? with
      | none => rfl
      | some pair =>
        exact absurd ((hspec.restart pair.1 pair.2).mp ⟨directive, hmem, hsome⟩).2 (hnone pair.1)
  refine ⟨?_, ?_, ?_, ?_, ?_⟩
  · intro key
    rw [h.ready, mem_ready_foldl, hspec.node, exists_mem_cons_iff]
    tauto
  · rw [h.restart_none, restart_foldl, Option.or_eq_none_iff, hfind, forall_mem_cons]
    tauto
  · intro pair hstart
    apply h.restart_kept
    rw [restart_foldl, hstart]
    rfl
  · intro hstart key source hsome
    by_cases hhere : directives.findSome? FlowDirective.restart? = none
    · have hscan : (directives.foldl (Scan.apply attempts attempt) start).restart = none := by
        rw [restart_foldl, hstart, hhere]
        rfl
      obtain ⟨before, found, after, rfl, hsrc, hrest, hbef⟩ :=
        h.restart_some hscan key source hsome
      refine ⟨attempt :: before, found, after, rfl, hsrc, hrest, ?_⟩
      intro earlier hearl
      rcases mem_cons.mp hearl with rfl | hearl
      · exact hfind.mp hhere
      · exact hbef earlier hearl
    · obtain ⟨pair, hpair⟩ := Option.ne_none_iff_exists'.mp hhere
      have hkept : result.restart = some pair := by
        apply h.restart_kept
        rw [restart_foldl, hstart, hpair]
        rfl
      rw [hsome] at hkept
      cases hkept
      obtain ⟨directive, hmem, hdir⟩ := exists_of_findSome?_eq_some hpair
      obtain ⟨hsrc, hrest⟩ := (hspec.restart key source).mp ⟨directive, hmem, hdir⟩
      refine ⟨[], attempt, rest, rfl, hsrc, hrest, ?_⟩
      rintro earlier ⟨⟩
  · rw [h.terminal, terminal_foldl, hspec.ends, exists_mem_cons_iff]
    tauto

/-- A scan that succeeds has the directives of every attempt. -/
theorem ScanSpec.of_foldlM
    (hdef : interpreter.validated.closure.definition flow.definition = some definition)
    (h : visited.foldlM (interpreter.scanAttempt flow cycle history attempts) start = .ok result) :
    ScanSpec definition history flow.id attempts visited start result ∧
      ∀ attempt ∈ visited, ∃ directives,
        interpreter.attemptDirectives flow cycle history attempt = .ok directives := by
  induction visited generalizing start with
  | nil =>
    cases h
    refine ⟨ScanSpec.refl attempts _, ?_⟩
    rintro attempt ⟨⟩
  | cons attempt rest ih =>
    rw [foldlM_cons, scanAttempt_eq] at h
    obtain ⟨scan, hscan, h⟩ := bind_eq_ok.mp h
    obtain ⟨directives, hdirs, hscan⟩ := bind_eq_ok.mp hscan
    cases hscan
    obtain ⟨hspec, hall⟩ := ih h
    refine ⟨hspec.cons (DirectivesSpec.of_attemptDirectives hdef hdirs), ?_⟩
    intro other hother
    rcases mem_cons.mp hother with rfl | hother
    · exact ⟨directives, hdirs⟩
    · exact hall other hother

theorem foldlM_scanAttempt_isOk (start : Scan) (h : ∀ attempt ∈ visited, ∃ directives,
      interpreter.attemptDirectives flow cycle history attempt = .ok directives) : ∃ result,
      visited.foldlM (interpreter.scanAttempt flow cycle history attempts) start = .ok result := by
  induction visited generalizing start with
  | nil => exact ⟨start, rfl⟩
  | cons attempt rest ih =>
    obtain ⟨directives, hdirs⟩ := h attempt (mem_cons_self ..)
    obtain ⟨result, hres⟩ := ih (directives.foldl (Scan.apply attempts attempt) start)
      fun other hother => h other (mem_cons_of_mem _ hother)
    refine ⟨result, ?_⟩
    rw [foldlM_cons, scanAttempt_eq, hdirs]
    exact hres

/-! ## The position -/

theorem mem_cycleAttempts {attempt : NodeAttempt} : attempt ∈ cycleAttempts history flow cycle ↔
      attempt ∈ history.attempts ∧ attempt.flowRunId = flow.id ∧
        attempt.workflowCycleId = cycle.id := by
  unfold cycleAttempts
  rw [mem_insertionSort, mem_filter, decide_eq_true_eq]

theorem cycleAttempts_sorted :
    (cycleAttempts history flow cycle).Pairwise fun left right => left.number ≤ right.number :=
  pairwise_insertionSort _ _

/-- The attempt is pending within its cycle. -/
def Pending (history : FlowRuntimeHistory) (flow : FlowRun) (cycle : WorkflowCycle)
    (attempt : NodeAttempt) : Prop :=
  attempt ∈ cycleAttempts history flow cycle ∧
    isPending history (cycleAttempts history flow cycle) attempt = true

/-- What a position of a cycle with attempts says. -/
structure PositionSpec (definition : FlowDefinition) (history : FlowRuntimeHistory)
    (flow : FlowRun) (cycle : WorkflowCycle) (progress : FlowProgress)
    (ready : OrdSet FactoryKey) : Prop where
  ready_restart : (∃ attempt ∈ cycleAttempts history flow cycle, ∃ key,
      Restarts definition history flow.id attempt key) → ∀ key, key ∈ ready.rows ↔
    ∃ attempt, Pending history flow cycle attempt ∧ attempt.nodeKey = key
  ready_offer : (∀ attempt ∈ cycleAttempts history flow cycle, ∀ key,
      ¬ Restarts definition history flow.id attempt key) → ∀ key, key ∈ ready.rows ↔
    (∃ attempt, Pending history flow cycle attempt ∧ attempt.nodeKey = key) ∨
      ∃ attempt ∈ cycleAttempts history flow cycle,
        isConsumed (cycleAttempts history flow cycle) attempt key = false ∧
          Offers definition history flow.id attempt key
  restart : ∀ node source, progress = .restartCycle node source →
    (∀ attempt, ¬ Pending history flow cycle attempt) ∧
    ∃ before attempt after, cycleAttempts history flow cycle = before ++ attempt :: after ∧
      source = attempt.id ∧ Restarts definition history flow.id attempt node ∧
      ∀ earlier ∈ before, ∀ other, ¬ Restarts definition history flow.id earlier other
  terminal : ∀ key source, progress = .terminal key source →
    (∀ attempt, ¬ Pending history flow cycle attempt) ∧
    (∀ attempt ∈ cycleAttempts history flow cycle, ∀ key,
      ¬ Restarts definition history flow.id attempt key) ∧ ready.rows = []
  waiting : progress = .waiting →
    (∀ attempt, ¬ Pending history flow cycle attempt) ∧
    (∀ attempt ∈ cycleAttempts history flow cycle, ∀ key,
      ¬ Restarts definition history flow.id attempt key) ∧ ready.rows = [] ∧
    ∀ attempt ∈ cycleAttempts history flow cycle, ¬ Ends definition history flow.id attempt

theorem position_of_empty (h : cycleAttempts history flow cycle = []) :
    interpreter.position flow cycle history =
      interpreter.cycleEntry flow cycle history >>= fun entry =>
        .ok (.node entry, OrdSet.ofList [entry]) := by
  unfold position
  dsimp only
  rw [h]
  rfl

theorem pending_head?_eq_none : ((cycleAttempts history flow cycle).filter
        (isPending history (cycleAttempts history flow cycle))).head? = none ↔
      ∀ attempt, ¬ Pending history flow cycle attempt := by
  rw [List.head?_eq_none_iff, filter_eq_nil_iff]
  exact ⟨fun h attempt hp => h attempt hp.1 hp.2, fun h attempt hmem hp => h attempt ⟨hmem, hp⟩⟩

theorem mem_pendingKeys : key ∈ (OrdSet.ofList (((cycleAttempts history flow cycle).filter
        (isPending history (cycleAttempts history flow cycle))).map (·.nodeKey))).rows ↔
      ∃ attempt, Pending history flow cycle attempt ∧ attempt.nodeKey = key := by
  rw [OrdSet.mem_ofList, mem_map]
  simp only [mem_filter, Pending]

/-- The position of a cycle with attempts, described by its rows. -/
theorem PositionSpec.of_position
    (hdef : interpreter.validated.closure.definition flow.definition = some definition)
    (hne : cycleAttempts history flow cycle ≠ [])
    (h : interpreter.position flow cycle history = .ok (progress, ready)) :
    PositionSpec definition history flow cycle progress ready ∧
      ∀ attempt ∈ cycleAttempts history flow cycle, ∃ directives,
        interpreter.attemptDirectives flow cycle history attempt = .ok directives := by
  unfold position at h
  dsimp only at h
  rw [if_neg (by simpa using hne)] at h
  obtain ⟨scan, hscan, h⟩ := bind_eq_ok.mp h
  obtain ⟨hspec, hall⟩ := ScanSpec.of_foldlM hdef hscan
  refine ⟨?_, hall⟩
  cases hrest : scan.restart with
  | some pair =>
    obtain ⟨node, source⟩ := pair
    rw [hrest] at h
    have hsome := hspec.restart_some rfl node source hrest
    have hexists : ∃ attempt ∈ cycleAttempts history flow cycle, ∃ key,
        Restarts definition history flow.id attempt key := by
      obtain ⟨before, attempt, after, heq, -, hcause, -⟩ := hsome
      exact ⟨attempt, by rw [heq]; simp, node, hcause⟩
    obtain ⟨hprog, hready⟩ := Prod.mk.inj (Except.ok.inj h)
    subst hready
    refine ⟨fun _ key => mem_pendingKeys, ?_, ?_, ?_, ?_⟩
    · intro hnone
      obtain ⟨attempt, hmem, key, hcause⟩ := hexists
      exact absurd hcause (hnone attempt hmem key)
    · intro node' source' heq
      rw [heq] at hprog
      split at hprog
      · cases hprog
      · rename_i hhead
        cases hprog
        exact ⟨pending_head?_eq_none.mp hhead, hsome⟩
    · intro key source' heq
      rw [heq] at hprog
      split at hprog <;> cases hprog
    · intro heq
      rw [heq] at hprog
      split at hprog <;> cases hprog
  | none =>
    rw [hrest] at h
    have hnone := (hspec.restart_none.mp hrest).2
    obtain ⟨hprog, hready⟩ := Prod.mk.inj (Except.ok.inj h)
    subst hready
    refine ⟨?_, ?_, ?_, ?_, ?_⟩
    · rintro ⟨attempt, hmem, key, hcause⟩
      exact absurd hcause (hnone attempt hmem key)
    · intro _ key
      rw [hspec.ready, mem_pendingKeys]
    · intro node source heq
      rw [heq] at hprog
      split at hprog <;> cases hprog
    · intro key source heq
      rw [heq] at hprog
      split at hprog
      · cases hprog
      · cases hprog
      · rename_i hhead hempty _
        exact ⟨pending_head?_eq_none.mp hhead, hnone, by simpa using hempty⟩
      · cases hprog
    · intro heq
      rw [heq] at hprog
      split at hprog
      · cases hprog
      · cases hprog
      · cases hprog
      · rename_i hhead hempty hterm
        refine ⟨pending_head?_eq_none.mp hhead, hnone, by simpa using hempty, ?_⟩
        intro attempt hmem hends
        have := hspec.terminal.mpr (Or.inr ⟨attempt, hmem, hends⟩)
        rw [hterm] at this
        cases this

/-- A position exists as soon as every attempt has its directives. -/
theorem position_isOk (hne : cycleAttempts history flow cycle ≠ [])
    (h : ∀ attempt ∈ cycleAttempts history flow cycle, ∃ directives,
      interpreter.attemptDirectives flow cycle history attempt = .ok directives) :
    ∃ progress ready, interpreter.position flow cycle history = .ok (progress, ready) := by
  unfold position
  dsimp only
  rw [if_neg (by simpa using hne)]
  obtain ⟨scan, hscan⟩ := foldlM_scanAttempt_isOk _ h
  rw [hscan]
  cases hrest : scan.restart with
  | some pair =>
    simp only [bind, Except.bind, hrest]
    exact ⟨_, _, rfl⟩
  | none =>
    simp only [bind, Except.bind, hrest]
    exact ⟨_, _, rfl⟩

theorem progress_eq_ok : interpreter.progress flow cycle history = .ok progress ↔
      ∃ ready, interpreter.position flow cycle history = .ok (progress, ready) := by
  unfold FlowInterpreter.progress
  rw [bind_eq_ok]
  constructor
  · rintro ⟨⟨p, ready⟩, hpos, h⟩
    cases h
    exact ⟨ready, hpos⟩
  · rintro ⟨ready, hpos⟩
    exact ⟨_, hpos, rfl⟩

theorem readyNodes_eq_ok : interpreter.readyNodes flow cycle history = .ok ready ↔
      ∃ progress, interpreter.position flow cycle history = .ok (progress, ready) := by
  unfold FlowInterpreter.readyNodes
  rw [bind_eq_ok]
  constructor
  · rintro ⟨⟨p, r⟩, hpos, h⟩
    cases h
    exact ⟨p, hpos⟩
  · rintro ⟨progress, hpos⟩
    exact ⟨_, hpos, rfl⟩

/-- Membership in the ready nodes, from their evaluated rows. -/
theorem readyNodes_contains
    (h : (interpreter.readyNodes flow cycle history).map (fun ready => ready.rows.contains key) =
      .ok true) :
    ∃ ready, interpreter.readyNodes flow cycle history = .ok ready ∧ key ∈ ready.rows := by
  cases hok : interpreter.readyNodes flow cycle history with
  | error e =>
    rw [hok] at h
    cases h
  | ok ready =>
    rw [hok] at h
    exact ⟨ready, rfl, contains_iff_mem.mp (Except.ok.inj h)⟩

/-- A reported restart comes from the first attempt of the cycle whose result
    selects one, when nothing of the cycle is pending. -/
theorem progress_restart_spec {node : FactoryKey} {source : NodeAttemptId}
    (hdef : interpreter.validated.closure.definition flow.definition = some definition)
    (h : interpreter.progress flow cycle history = .ok (.restartCycle node source)) :
    (∀ attempt, ¬ Pending history flow cycle attempt) ∧
    ∃ before attempt after, cycleAttempts history flow cycle = before ++ attempt :: after ∧
      source = attempt.id ∧ Restarts definition history flow.id attempt node ∧
      ∀ earlier ∈ before, ∀ other, ¬ Restarts definition history flow.id earlier other := by
  obtain ⟨ready, hpos⟩ := progress_eq_ok.mp h
  by_cases hempty : cycleAttempts history flow cycle = []
  · rw [position_of_empty hempty] at hpos
    obtain ⟨entry, -, hpos⟩ := bind_eq_ok.mp hpos
    cases hpos
  · exact (PositionSpec.of_position hdef hempty hpos).1.restart node source rfl

end FlowInterpreter

/-! # Accepted rows

Consequences of acceptance for single rows: which row an identity or a
number names, how a completion is bound to its attempt, and when the live
interpreter's own limits hold.
-/

variable {checks : AdmissionChecks} {admitted : AdmittedFlow}
  {validated : ValidatedFlowDefinitionClosure} {history : FlowRuntimeHistory}

/-- Admission validates the exact closure and limits. -/
theorem AdmittedFlow.validated_eq_ok (h : admitted.validated checks = .ok validated) :
    SoundClosure validated ∧ validated.closure = admitted.closure ∧
      validated.limits = admitted.limits ∧ admitted.validateRootBindings = .ok () := by
  unfold AdmittedFlow.validated at h
  simp only [check_eq_ok] at h
  obtain ⟨hroot, -, -, -, -, hnew⟩ := h
  obtain ⟨hsound, hclosure, hlimits⟩ := SoundClosure.of_new hnew
  exact ⟨hsound, hclosure, hlimits, hroot⟩

/-- The root Flow Run executes the closure's root definition under no call. -/
theorem AdmittedFlow.validateRootBindings_eq_ok (h : admitted.validateRootBindings = .ok ()) :
    admitted.rootRun.definition = admitted.closure.root ∧ admitted.rootRun.parent = none := by
  unfold AdmittedFlow.validateRootBindings at h
  obtain ⟨hroot, -⟩ := guard_eq_ok.mp h
  simp only [not_or, not_not, Bool.not_eq_true, Option.isSome_eq_false_iff,
    Option.isNone_iff_eq_none] at hroot
  exact ⟨hroot.1, hroot.2.1⟩

namespace Accepted

variable (h : Accepted admitted validated history)
include h

variable {left right : NodeAttempt} {id : NodeAttemptId}

theorem attempt_unique (hleft : left ∈ history.attempts)
    (hright : right ∈ history.attempts) (hid : left.id = right.id) : left = right :=
  inj_on_of_nodup_map h.attempts hleft hright hid

theorem cycle_unique {left right : WorkflowCycle} (hleft : left ∈ history.cycles)
    (hright : right ∈ history.cycles) (hid : left.id = right.id) : left = right :=
  inj_on_of_nodup_map h.cycles hleft hright hid

theorem run_unique {left right : FlowRun} (hleft : left ∈ history.flowRuns)
    (hright : right ∈ history.flowRuns) (hid : left.id = right.id) : left = right :=
  inj_on_of_nodup_map h.runs hleft hright hid

theorem number_unique (hleft : left ∈ history.attempts)
    (hright : right ∈ history.attempts) (hflow : left.flowRunId = right.flowRunId)
    (hnum : left.number = right.number) : left = right := by
  have hstrict := runAttempts_strict (h.numbered right hright)
  have hnodup : ((runAttempts history right.flowRunId).map (·.number)).Nodup := by
    rw [nodup_iff_pairwise_ne, pairwise_map]
    exact hstrict.imp fun hlt => ne_of_lt hlt
  exact inj_on_of_nodup_map hnodup (mem_runAttempts.mpr ⟨hleft, hflow⟩)
    (mem_runAttempts.mpr ⟨hright, rfl⟩) hnum

theorem attempt?_eq {attempt : NodeAttempt} :
    history.attempt? id = some attempt ↔ attempt ∈ history.attempts ∧ attempt.id = id :=
  attempt?_eq_some h.attempts

variable {completion : NodeAttemptCompletion}

theorem completion?_eq : history.completion? id = some completion ↔
      completion ∈ history.completions ∧ completion.nodeAttemptId = id :=
  completion?_eq_some h.completed

theorem boundCompletion {flow : FlowRun} {cycle : WorkflowCycle} {definition : FlowDefinition}
    {attempt : NodeAttempt} (hflow : flow ∈ history.flowRuns) (hcycle : cycle.flowRunId = flow.id)
    (hdef : validated.closure.definition flow.definition = some definition)
    (hatt : attempt ∈ history.attempts) (haflow : attempt.flowRunId = flow.id)
    (hattemptCycle : attempt.workflowCycleId = cycle.id)
    (hcomp : history.completion? attempt.id = some completion) :
    FlowInterpreter.BoundCompletion definition flow cycle attempt completion := by
  obtain ⟨hmem, hid⟩ := h.completion?_eq.mp hcomp
  obtain ⟨owner, howner, run, hrun, found, hownerId, hrunId, hfound, hoflow, hownerCycle,
    hkey, -, -, -, hdecls⟩ := h.completion completion hmem
  have hsame : owner = attempt := h.attempt_unique howner hatt (by rw [hownerId, hid])
  subst hsame
  have hrunEq : run = flow := h.run_unique hrun hflow (by rw [hrunId, haflow])
  subst hrunEq
  rw [hdef] at hfound
  cases hfound
  refine ⟨hcycle, haflow, hattemptCycle, hid, ?_, ?_, hkey.symm, ?_⟩
  · rw [← hoflow, haflow]
  · rw [← hownerCycle, hattemptCycle]
  · unfold FlowDefinition.declaresOutcome at hdecls
    rw [hkey]
    split at hdecls
    · rename_i node hnode
      exact ⟨node, hnode, hdecls⟩
    · cases hdecls

/-- The rows the live interpreter counts for a completion occur once. -/
theorem retainedOnce {attempt : NodeAttempt} (hatt : attempt ∈ history.attempts)
    (hcomp : history.completion? attempt.id = some completion) :
    FlowInterpreter.RetainedOnce history completion := by
  obtain ⟨hmem, hid⟩ := h.completion?_eq.mp hcomp
  refine ⟨?_, countP_key_eq_one h.completed hmem⟩
  rw [hid]
  exact countP_key_eq_one h.attempts hatt

end Accepted

end OctaCity.Factory.Flow
