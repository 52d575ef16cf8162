/-
  OctaCity.Retention.FactoryGraph

  When the passes of `delete_metadata_page` delete all rows of a Run.

  The order of the statements and their guards keep every foreign key but two: a
  workflow cycle refers to its source attempt and to its predecessor, and the
  statements that delete attempts and cycles do not look at these columns.
-/
import OctaCity.Retention.FactoryRows

namespace OctaCity.Retention

open Lib List
open Factory (FactoryRunId)

/-! ## Tables and keys -/

namespace FactoryTable

/-- The tables with a foreign key to a table. -/
def referrers : FactoryTable → List FactoryTable
  | actionProjections => [actionItems]
  | executionInputManifests => [executionInputs]
  | flowBuildExecutions => [nodeStops]
  | flowBuildIntents => [roleExecutionPackages, executionInputManifests, flowBuildExecutions]
  | flowInputs =>
    [decisionSignalReceipts, decisionSignalRequests, flowBuildIntents, flowRecords,
      flowProfileSelections]
  | phasePoolEntries => [phasePoolSelections]
  | nodeAttempts =>
    [decisionSignalReceipts, decisionSignalRequests, nodeStops, flowBuildExecutions,
      flowBuildIntents, flowRecords, nodeAttemptCompletions, workflowCycles, flowRuns]
  | workflowCycles =>
    [flowInputs, phasePoolSelections, phasePoolEntries, nodeAttempts, workflowCycles]
  | flowRuns =>
    [flowInputs, phasePoolSelections, phasePoolEntries, nodeAttempts, workflowCycles, flowRuns]
  | runBudgets => [runCurrent]
  | lifecycleCheckpoints => [runCurrent]
  | runClaims => [phasePoolSelections, runCurrent]
  | _ => []

/-- Tables whose rows are all gone once their statement has nothing to delete. -/
def Settles (table : FactoryTable) : Prop :=
  ∀ guard ∈ table.guards, guard.guards = [] ∧ guard.ctorIdx < table.ctorIdx

instance (table : FactoryTable) : Decidable table.Settles :=
  inferInstanceAs (Decidable (∀ _ ∈ _, _))

/-- The links of workflow cycles that no statement looks at. -/
def IsCycleLink (table referrer : FactoryTable) : Prop :=
  referrer = workflowCycles ∧ (table = nodeAttempts ∨ table = workflowCycles)

instance (table referrer : FactoryTable) : Decidable (IsCycleLink table referrer) :=
  inferInstanceAs (Decidable (_ ∧ _))

theorem mem_deleteOrder (table : FactoryTable) : table ∈ deleteOrder := by
  cases table <;> decide

theorem deleteOrder_pairwise : deleteOrder.Pairwise fun a b => a.ctorIdx < b.ctorIdx := by
  decide

theorem ctorIdx_injective {a b : FactoryTable} (h : a.ctorIdx = b.ctorIdx) : a = b := by
  cases a <;> cases b <;> first | rfl | cases h

theorem eq_nodeAttempts {table : FactoryTable} (hle : nodeAttempts.ctorIdx ≤ table.ctorIdx)
    (hlt : table.ctorIdx < workflowCycles.ctorIdx) : table = nodeAttempts :=
  ctorIdx_injective (Nat.le_antisymm (Nat.le_of_lt_succ hlt) hle)

/-- Every foreign key is guarded, or its rows are deleted before, or it is a link
    of a workflow cycle. -/
theorem referrers_covered (table : FactoryTable) : ∀ referrer ∈ table.referrers,
    referrer ∈ table.guards ∨ IsCycleLink table referrer ∨
      (referrer.Settles ∧ referrer.ctorIdx < table.ctorIdx) := by
  cases table <;> decide

theorem settles_before_nodeAttempts (table : FactoryTable)
    (h : table.ctorIdx < nodeAttempts.ctorIdx) : table.Settles := by
  revert h
  cases table <;> decide

end FactoryTable

open FactoryTable
def ReferencedKey.table : ReferencedKey → FactoryTable
  | actionProjection _ => .actionProjections
  | executionInputManifest _ => .executionInputManifests
  | flowBuildExecution _ => .flowBuildExecutions
  | flowBuildIntent _ _ => .flowBuildIntents
  | flowInput _ _ => .flowInputs
  | phasePoolEntry _ => .phasePoolEntries
  | nodeAttempt _ => .nodeAttempts
  | workflowCycle _ => .workflowCycles
  | flowRun _ => .flowRuns
  | runBudget _ => .runBudgets
  | lifecycleCheckpoint _ => .lifecycleCheckpoints
  | runClaim _ => .runClaims

variable {row : FactoryRow}

namespace FactoryRow

theorem table_of_key? {key : ReferencedKey} (h : row.key? = some key) : row.table = key.table := by
  cases row <;> cases h <;> rfl

theorem table_of_references (row : FactoryRow) : ∀ key ∈ row.references,
    row.table ∈ key.table.referrers := by
  cases row <;> simp only [references, forall_mem_cons, forall_mem_append,
    forall_mem_map, table, ReferencedKey.table] <;> simp [referrers]

theorem table_of_refers {other : FactoryRow} (h : other.refers row = true) :
    other.table ∈ row.table.referrers := by
  cases hkey : row.key? with
  | none =>
    rw [refers, hkey] at h
    cases h
  | some key =>
    rw [refers, hkey] at h
    rw [table_of_key? hkey]
    exact table_of_references other key (of_decide_eq_true h)

end FactoryRow

/-! ## Statements -/

section

variable {run : FactoryRunId} {rows rest : List FactoryRow} {table : FactoryTable} {limit : Nat}

theorem selects_iff : (deleteStep run table).selects row = true ↔
    row.table = table ∧ row.runId = run ∧ row.isStoredInput = false := by
  simp [deleteStep]

theorem blockedBy_iff {other : FactoryRow} : (deleteStep run table).blockedBy row other = true ↔
      other.table ∈ table.guards ∧ other.refers row = true := by
  simp [deleteStep]

theorem selected_iff : Selected (deleteSteps run) row ↔
    row.runId = run ∧ row.isStoredInput = false := by
  constructor
  · rintro ⟨step, hstep, hsels⟩
    obtain ⟨table, -, rfl⟩ := mem_map.mp hstep
    exact (selects_iff.mp hsels).2
  · intro h
    exact ⟨_, mem_map_of_mem (mem_deleteOrder row.table), selects_iff.mpr ⟨rfl, h⟩⟩

theorem deleteStep_mem (table : FactoryTable) : deleteStep run table ∈ deleteSteps run :=
  mem_map_of_mem (mem_deleteOrder table)

theorem deleteSteps_selectOnce (run : FactoryRunId) : SelectOnce (deleteSteps run) := by
  intro step hstep other hother row hsels hother'
  obtain ⟨table, -, rfl⟩ := mem_map.mp hstep
  obtain ⟨table', -, rfl⟩ := mem_map.mp hother
  rw [← (selects_iff.mp hsels).1, ← (selects_iff.mp hother').1]

/-- The statements before that of a table, when the list is cut there. -/
theorem deleteSteps_split {before after : List (DeleteStep FactoryRow)} {step : DeleteStep FactoryRow}
    (h : deleteSteps run = before ++ step :: after) :
    ∃ table, step = deleteStep run table ∧ ∀ earlier : FactoryTable,
      earlier.ctorIdx < table.ctorIdx → deleteStep run earlier ∈ before := by
  obtain ⟨first, tail, horder, rfl, hsnd⟩ := map_eq_append_iff.mp h
  obtain ⟨table, last, rfl, rfl, rfl⟩ := map_eq_cons_iff.mp hsnd
  refine ⟨table, rfl, fun earlier hlt => mem_map_of_mem ?_⟩
  have hpairwise := deleteOrder_pairwise
  rw [horder, pairwise_append, pairwise_cons] at hpairwise
  have hmem := mem_deleteOrder earlier
  rw [horder, mem_append, mem_cons] at hmem
  obtain hfirst | rfl | hlast := hmem
  · exact hfirst
  · exact (Nat.lt_irrefl _ hlt).elim
  · exact (Nat.lt_asymm hlt (hpairwise.2.1.1 earlier hlast)).elim

/-- No row of another Run refers to a row of the Run. -/
def Unshared (run : FactoryRunId) (rows : List FactoryRow) : Prop :=
  ∀ row ∈ rows, row.runId = run → ∀ other ∈ rows, other.runId ≠ run → other.refers row = false

/-- The execution inputs of the Run are deleted. -/
def InputsDeleted (run : FactoryRunId) (rows : List FactoryRow) : Prop :=
  ∀ row ∈ rows, row.runId = run → row.isStoredInput = false

instance : Decidable (Unshared run rows) := inferInstanceAs (Decidable (∀ _ ∈ _, _))

instance : Decidable (InputsDeleted run rows) := inferInstanceAs (Decidable (∀ _ ∈ _, _))

/-- The links of workflow cycles do not stop the next pages. -/
structure CycleLinksClear (run : FactoryRunId) (limit : Nat) (rows : List FactoryRow) : Prop where
  /-- No attempt that can be deleted is the source attempt of a cycle. -/
  sources : ∀ attempt ∈ (deleteStep run .nodeAttempts).deletable rows,
    ∀ cycle ∈ rows, cycle.table = .workflowCycles → cycle.refers attempt = false
  /-- When cycles come next, their page holds the successors of its cycles. -/
  successors : (∀ row ∈ rows, row.runId = run →
      nodeAttempts.ctorIdx ≤ row.table.ctorIdx) →
    (deleteStep run .nodeAttempts).deletable rows = [] →
    ∀ cycle ∈ (deleteStep run .workflowCycles).page limit rows,
      ∀ later ∈ rows, later.table = .workflowCycles → later.refers cycle = true →
        later ∈ (deleteStep run .workflowCycles).page limit rows

theorem Unshared.subset (h : Unshared run rows) (hsub : rest ⊆ rows) : Unshared run rest :=
  fun row hrow hrun other hother => h row (hsub hrow) hrun other (hsub hother)

theorem InputsDeleted.subset (h : InputsDeleted run rows) (hsub : rest ⊆ rows) :
    InputsDeleted run rest :=
  fun row hrow => h row (hsub hrow)

/-! ## Pages -/

/-- A table that nothing guards is empty when its statement has nothing to delete. -/
theorem empty_of_unguarded (hinputs : InputsDeleted run rows) (hguards : table.guards = [])
    (hdelb : (deleteStep run table).deletable rows = []) :
    ∀ row ∈ rows, row.runId = run → row.table ≠ table := by
  intro row hrow hrun htable
  have hmem : row ∈ (deleteStep run table).deletable rows := by
    refine DeleteStep.mem_deletable.mpr ⟨hrow, selects_iff.mpr ⟨htable, hrun, hinputs row hrow hrun⟩, ?_⟩
    intro other _
    by_contra hblocks
    have hguard := (blockedBy_iff.mp (Bool.eq_true_of_not_eq_false hblocks)).1
    rw [hguards] at hguard
    cases hguard
  rw [hdelb] at hmem
  cases hmem

/-- A table that settles is empty when the statements up to its own have nothing
    to delete. -/
theorem empty_of_settles (hinputs : InputsDeleted run rows) (hunsh : Unshared run rows)
    (hsets : table.Settles)
    (hdelb : ∀ earlier : FactoryTable, earlier.ctorIdx ≤ table.ctorIdx →
      (deleteStep run earlier).deletable rows = []) :
    ∀ row ∈ rows, row.runId = run → row.table ≠ table := by
  intro row hrow hrun htable
  have hmem : row ∈ (deleteStep run table).deletable rows := by
    refine DeleteStep.mem_deletable.mpr ⟨hrow, selects_iff.mpr ⟨htable, hrun, hinputs row hrow hrun⟩, ?_⟩
    intro other hother
    by_contra hblocks
    obtain ⟨hguard, hrefers⟩ := blockedBy_iff.mp (Bool.eq_true_of_not_eq_false hblocks)
    -- The blocking row belongs to the Run and to a table that nothing guards.
    have hotherRun : other.runId = run := by
      by_contra hne
      rw [hunsh row hrow hrun other hother hne] at hrefers
      cases hrefers
    obtain ⟨hunguarded, hlt⟩ := hsets _ hguard
    exact empty_of_unguarded hinputs hunguarded (hdelb _ (Nat.le_of_lt hlt)) other hother
      hotherRun rfl
  rw [hdelb table (Nat.le_refl _)] at hmem
  cases hmem

/-- A page is free of references when the links of workflow cycles are clear. -/
theorem removePage_ne_none (hinputs : InputsDeleted run rows) (hunsh : Unshared run rows)
    (hlinks : CycleLinksClear run limit rows)
    (hearl : ∀ earlier : FactoryTable, earlier.ctorIdx < table.ctorIdx →
      (deleteStep run earlier).deletable rows = []) :
    removePage FactoryRow.refers ((deleteStep run table).page limit rows) rows ≠ none := by
  refine Option.ne_none_iff_exists'.mpr ⟨_, removePage_eq_some.mpr ⟨rfl, ?_⟩⟩
  intro other hother hstays row hrow
  have hdelb := DeleteStep.deletable_of_mem_page hrow
  obtain ⟨hmem, hsels, hfree⟩ := DeleteStep.mem_deletable.mp hdelb
  obtain ⟨htable, hrun, -⟩ := selects_iff.mp hsels
  by_contra hrefers
  have hrefers := Bool.eq_true_of_not_eq_false hrefers
  have hotherRun : other.runId = run := by
    by_contra hne
    rw [hunsh row hmem hrun other hother hne] at hrefers
    cases hrefers
  have hreferrer := FactoryRow.table_of_refers hrefers
  rw [htable] at hreferrer
  obtain hguard | ⟨hcycle, hlink⟩ | ⟨hsets, hlt⟩ := table.referrers_covered _ hreferrer
  · -- A guarded reference blocks the row.
    have hblocks : (deleteStep run table).blockedBy row other = true :=
      blockedBy_iff.mpr ⟨htable ▸ hguard, hrefers⟩
    rw [hfree other hother] at hblocks
    cases hblocks
  · obtain rfl | rfl := hlink
    · rw [hlinks.sources row hdelb other hother hcycle] at hrefers
      cases hrefers
    · have hbef : ∀ row ∈ rows, row.runId = run →
          nodeAttempts.ctorIdx ≤ row.table.ctorIdx := by
        intro row hrow hrun
        by_contra hlt
        have hlt := Nat.lt_of_not_le hlt
        refine empty_of_settles hinputs hunsh (settles_before_nodeAttempts _ hlt)
          (fun earlier hle => hearl earlier ?_) row hrow hrun rfl
        exact Nat.lt_of_le_of_lt hle (Nat.lt_trans hlt (by decide))
      exact hstays (hlinks.successors hbef (hearl _ (by decide)) row hrow other hother hcycle
        hrefers)
  · exact empty_of_settles hinputs hunsh hsets
      (fun earlier hle => hearl earlier (Nat.lt_of_le_of_lt hle hlt)) other hother hotherRun rfl

theorem deletePass_ne_none (hlimit : 0 < limit) (hinputs : InputsDeleted run rows)
    (hunsh : Unshared run rows) (hlinks : CycleLinksClear run limit rows) :
    deletePass FactoryRow.refers limit (deleteSteps run) rows ≠ none := by
  obtain ⟨-, hpass⟩ | ⟨before, step, after, hsplit, hbef, -, hpass⟩ :=
    @deletePass_cases FactoryRow _ FactoryRow.refers limit (deleteSteps run) rows hlimit
  · rw [hpass]
    exact Option.some_ne_none _
  · obtain ⟨table, rfl, hearl⟩ := deleteSteps_split hsplit
    rw [hpass, Ne, Option.map_eq_none_iff]
    exact removePage_ne_none hinputs hunsh hlinks fun earlier hlt =>
      hbef _ (hearl earlier hlt)

/-! ## Rows that are deleted -/

/-- Rows that are deleted pass by pass have clear links. -/
theorem cycleLinksClear_of_drains (hlimit : 0 < limit)
    (h : Drains FactoryRow.refers limit (deleteSteps run) rows) (hunsh : Unshared run rows) :
    CycleLinksClear run limit rows where
  sources := by
    intro attempt hatt cycle hcycle htable
    obtain ⟨hmem, hsels, -⟩ := DeleteStep.mem_deletable.mp hatt
    by_cases hrun : cycle.runId = run
    · have hcycle' : (deleteStep run .workflowCycles).selects cycle = true := by
        refine selects_iff.mpr ⟨htable, hrun, ?_⟩
        cases cycle <;> first | rfl | cases htable
      refine h.later_refers hlimit (deleteSteps_selectOnce run) (deleteStep_mem _) (deleteStep_mem _)
        (fun first last hsplit => ?_) hatt hcycle hcycle'
      obtain ⟨table, hstep, hearl⟩ := deleteSteps_split hsplit
      rw [hstep, selects_iff, htable] at hcycle'
      exact hearl .nodeAttempts (hcycle'.1 ▸ by decide)
    · exact hunsh attempt hmem (selects_iff.mp hsels).2.1 cycle hcycle hrun
  successors := by
    intro hbef hatts cycle hcycle later hlater _ hrefers
    obtain ⟨rest, k, hpass, -⟩ := h.next hlimit
    have hcycs := DeleteStep.deletable_of_mem_page hcycle
    obtain ⟨-, -, hidle⟩ | ⟨before, step, after, hsplit, hfirst, hstep, -, -, hfree⟩ :=
      deletePass_eq_some hlimit hpass
    · rw [hidle _ (deleteStep_mem _)] at hcycs
      cases hcycs
    · obtain ⟨table, rfl, hearl⟩ := deleteSteps_split hsplit
      have htable : table = .workflowCycles := by
        obtain hlt | heq | hgt := Nat.lt_trichotomy table.ctorIdx workflowCycles.ctorIdx
        · -- The tables before have no rows that can be deleted.
          obtain ⟨row, hrow⟩ := exists_mem_of_ne_nil _ hstep
          obtain ⟨hmem, hsels, -⟩ := DeleteStep.mem_deletable.mp hrow
          obtain ⟨rfl, hrun, -⟩ := selects_iff.mp hsels
          have hle := hbef row hmem hrun
          rw [eq_nodeAttempts hle hlt, hatts] at hrow
          cases hrow
        · exact ctorIdx_injective heq
        · rw [hfirst _ (hearl _ hgt)] at hcycs
          cases hcycs
      subst htable
      by_contra hstays
      rw [hfree later hlater hstays cycle hcycle] at hrefers
      cases hrefers

/-- The passes delete every row of the Run if and only if no other Run refers to them,
    they are blocked in some order, and the links of workflow cycles are clear in every
    state that is reached. -/
theorem drains_deleteSteps_iff (hlimit : 0 < limit) (hinputs : InputsDeleted run rows) :
    Drains FactoryRow.refers limit (deleteSteps run) rows ↔
      Unshared run rows ∧ BlockedInOrder (deleteSteps run) rows ∧
        ∀ n rest, deletePasses FactoryRow.refers limit (deleteSteps run) n rows = some rest →
          CycleLinksClear run limit rest := by
  constructor
  · intro h
    have hunsh : Unshared run rows := fun row hrow hrun other hother hne =>
      h.unselected_refers hlimit hrow (selected_iff.mpr ⟨hrun, hinputs row hrow hrun⟩) hother
        fun hsel => hne (selected_iff.mp hsel).1
    refine ⟨hunsh, h.ordered hlimit (deleteSteps_selectOnce run), fun n rest hpasses => ?_⟩
    have hsubl := deletePasses_sublist hlimit hpasses
    exact cycleLinksClear_of_drains hlimit (h.after hlimit hpasses) (hunsh.subset hsubl.subset)
  · rintro ⟨hunsh, horder, hlinks⟩
    refine (drains_iff hlimit (deleteSteps_selectOnce run)).mpr ⟨horder, fun n rest hpasses => ?_⟩
    have hsubl := deletePasses_sublist hlimit hpasses
    exact deletePass_ne_none hlimit (hinputs.subset hsubl.subset)
      (hunsh.subset hsubl.subset) (hlinks n rest hpasses)

end

end OctaCity.Retention
