/-
  OctaCity.Retention.FactoryCleanup

  Cleanup of a Factory Run by repeated calls of `advance`, each under a valid
  claim: when the calls complete with no row of the Run left.
-/
import OctaCity.Retention.FactoryGraph
import OctaCity.Retention.FactoryRun

namespace OctaCity.Retention

open Domain Lib List
open Factory (FactoryEntityKind FactoryId FactoryRunId)

/-- One worker's claim and the time of its pass. -/
structure CleanupCall where
  claim : WorkClaim
  observedAt : Timestamp

namespace FactoryDb

variable (held : FactoryRunId → Timestamp → Bool) (run : FactoryRunId) (limit : PageLimit)
variable (s : FactoryDb)

/-- A worker claims the Run and advances it once. -/
def cleanupCall (call : CleanupCall) :
    Except FactoryRetentionError (FactoryDb × FactoryRetentionPassOutcome) :=
  (s.claimRun held run call.claim call.observedAt).advance held
    ⟨run, call.claim.owner, call.observedAt, limit⟩

/-- The state after a number of calls, unless one of them has failed. -/
def afterCalls (calls : Nat → CleanupCall) : Nat → Except FactoryRetentionError FactoryDb
  | 0 => .ok s
  | n + 1 => do
    let t ← afterCalls calls n
    let (t, _) ← t.cleanupCall held run limit (calls n)
    .ok t

/-- The calls come at ascending times, each with time left on its claim and with
    no hold on the Run. -/
structure ValidCalls (calls : Nat → CleanupCall) : Prop where
  claimed : ∀ n, (calls n).observedAt < (calls n).claim.expiresAt
  ascending : ∀ n, (calls n).observedAt ≤ (calls (n + 1)).observedAt
  free : ∀ n, held run (calls n).observedAt = false

/-- The work of the Run can be claimed at a time. -/
def Due (observedAt : Timestamp) : Prop :=
  ∃ work, s.work.find? run = some work ∧ work.phase ≠ .completed ∧
    s.isClaimable held observedAt work = true

/-- The work of the Run while a pass is under way. -/
structure Working (work : FactoryRetentionWork) : Prop where
  found : s.work.find? run = some work
  row : ∃ row, s.runs.find? run = some row ∧ row.state.isTerminal = true
  incomplete : work.completedAt = none
  phase : work.phase = .hidden ∨ work.phase = .metadata

/-- The state in which a pass releases references. -/
def opened (call : CleanupCall) : FactoryDb :=
  ((s.claimRun held run call.claim call.observedAt).hideRun run call.observedAt).enterPhase run
    .pending .hidden

/-- The state in which a pass has released references. -/
def afterRelease (call : CleanupCall) : FactoryDb :=
  (s.opened held run call).release (s.liveReferencePage run limit) call.observedAt

variable {held run limit s} {call : CleanupCall} {calls : Nat → CleanupCall}

variable {observedAt : Timestamp} {work : FactoryRetentionWork} {rows : List FactoryRow} {n : Nat}
  {t : FactoryDb} {outcome : FactoryRetentionPassOutcome}

theorem isClaimable_iff : s.isClaimable held observedAt work = true ↔
      ∃ row, s.runs.find? work.runId = some row ∧ work.completedAt = none ∧
        work.phase ≠ .deadLetter ∧
        (row.visible = true ∨ work.phase = .hidden ∨ work.phase = .metadata) ∧
        row.state.isTerminal = true ∧ work.availableAt ≤ observedAt ∧
        (∀ claim ∈ work.claim, claim.expiresAt ≤ observedAt) ∧ held work.runId observedAt = false := by
  rw [isClaimable]
  cases s.runs.find? work.runId with
  | none => simp
  | some row => simp

/-! ## One call -/

section

variable (h : s.Due held run call.observedAt)

include h

theorem Due.claimed : ∃ (work : FactoryRetentionWork) (row : FactoryRunRow),
      (s.claimRun held run call.claim call.observedAt).work.find? run =
        some (work.acquire call.claim) ∧
      s.runs.find? run = some row ∧ row.state.isTerminal = true ∧ work.completedAt = none ∧
      (work.phase = .pending ∨ work.phase = .hidden ∨ work.phase = .metadata) := by
  obtain ⟨work, hwork, hphase, hclaimable⟩ := h
  have hid : work.runId = run := Table.key_of_find? hwork
  obtain ⟨row, hrow, hcompl, hdead, -, hterm, -⟩ := isClaimable_iff.mp hclaimable
  refine ⟨work, row, ?_, hid ▸ hrow, hterm, hcompl, ?_⟩
  · simp [claimRun, Table.find?_updateWhere, hwork, hid, hclaimable]
  · cases hcase : work.phase <;> simp_all

theorem Due.lockEligibleWork (hclaim : call.observedAt < call.claim.expiresAt)
    (hfree : held run call.observedAt = false) :
    (s.claimRun held run call.claim call.observedAt).lockEligibleWork held
      ⟨run, call.claim.owner, call.observedAt, limit⟩ = .ok () := by
  obtain ⟨work, row, hwork, hrow, hterm, hcompl, -⟩ := h.claimed
  have hrow' : (s.claimRun held run call.claim call.observedAt).runs.find? run = some row := hrow
  simp only [FactoryDb.lockEligibleWork, hwork, hrow']
  rw [if_pos ⟨⟨call.claim, rfl, rfl, hclaim⟩, hcompl⟩, if_pos ⟨hterm, by rw [hfree]; decide⟩]

/-- A pass works on hidden work or on that whose references are released. -/
theorem Due.opened : ∃ work, Working run (s.opened held run call) work := by
  obtain ⟨work, row, hwork, hrow, hterm, hcompl, hphase⟩ := h.claimed
  have hid : work.runId = run := Table.key_of_find? (a := work.acquire call.claim) hwork
  refine ⟨_, Table.find?_updateWhere_of_some (FactoryRetentionWork.enter_runId _) hwork,
    ⟨_, Table.find?_updateWhere_of_some (FactoryRunRow.hide_id _) hrow, ?_⟩, ?_, ?_⟩
  · split <;> exact hterm
  · split <;> exact hcompl
  · obtain hpend | hhid | hmeta := hphase
    · rw [if_pos (by simp [hid, hpend])]
      exact .inl rfl
    · rw [if_neg (by simp [hhid])]
      exact .inl hhid
    · rw [if_neg (by simp [hmeta])]
      exact .inr hmeta

end

theorem Working.enterPhase (h : Working run s work) :
    ∃ work, Working run (s.enterPhase run .hidden .metadata) work := by
  refine ⟨_, Table.find?_updateWhere_of_some (FactoryRetentionWork.enter_runId _) h.found, h.row, ?_, ?_⟩
  · split <;> exact h.incomplete
  · split
    · exact .inr rfl
    · exact h.phase

/-- A pass that yields the work leaves it due from then on. -/
theorem Working.yield_due (h : Working run s work)
    {later : Timestamp} (hle : observedAt ≤ later) (hfree : held run later = false) :
    (s.yieldWork run observedAt).Due held run later := by
  have hid : work.runId = run := Table.key_of_find? h.found
  obtain ⟨row, hrow, hterm⟩ := h.row
  refine ⟨work.yield observedAt, ?_, ?_, isClaimable_iff.mpr ⟨row, ?_, h.incomplete, ?_, ?_, hterm,
    hle, ?_, ?_⟩⟩
  · simp [yieldWork, Table.find?_updateWhere, h.found, hid]
  · obtain hphase | hphase := h.phase <;> simp [FactoryRetentionWork.yield, hphase]
  · simpa [yieldWork, hid] using hrow
  · obtain hphase | hphase := h.phase <;> simp [FactoryRetentionWork.yield, hphase]
  · exact .inr h.phase
  · intro claim hclaim
    cases hclaim
  · simpa [hid] using hfree

section

variable (hdue : s.Due held run call.observedAt) (hclaim : call.observedAt < call.claim.expiresAt)
  (hfree : held run call.observedAt = false)

include hdue hclaim hfree

/-- A call that finds references or stored inputs releases a page of references. -/
theorem Due.cleanupCall_remaining
    (hrem : (s.afterRelease held run limit call).remaining run = true) :
    s.cleanupCall held run limit call =
      .ok ((s.afterRelease held run limit call).yieldWork run call.observedAt,
        ⟨(s.liveReferencePage run limit).length, 0, false⟩) := by
  rw [cleanupCall, advance, hdue.lockEligibleWork hclaim hfree]
  exact if_pos hrem

section

variable (hrem : (s.afterRelease held run limit call).remaining run = false)

include hrem

/-- Every other call runs the cleanup statements. -/
theorem Due.cleanupCall_deletes
    (hpass : deletePass FactoryRow.refers limit.value (deleteSteps run) s.rows = some (rows, n)) :
    s.cleanupCall held run limit call =
      let t := { (s.afterRelease held run limit call).enterPhase run .hidden .metadata with rows := rows }
      if n = 0 then
        .ok (t.completeWork run call.observedAt, ⟨(s.liveReferencePage run limit).length, 0, true⟩)
      else
        .ok (t.yieldWork run call.observedAt, ⟨(s.liveReferencePage run limit).length, n, false⟩) := by
  rw [cleanupCall, advance, hdue.lockEligibleWork hclaim hfree]
  refine (if_neg (ne_true_of_eq_false hrem)).trans ?_
  have hpage : ((s.afterRelease held run limit call).enterPhase run .hidden .metadata).deleteMetadataPage
      run limit = .ok (rows, n) := okOr_eq_ok.mpr hpass
  exact (congrArg (· >>= _) hpage)

theorem Due.cleanupCall_violation
    (hpass : deletePass FactoryRow.refers limit.value (deleteSteps run) s.rows = none) :
    s.cleanupCall held run limit call = .error .unavailable := by
  rw [cleanupCall, advance, hdue.lockEligibleWork hclaim hfree]
  refine (if_neg (ne_true_of_eq_false hrem)).trans ?_
  have hpage : ((s.afterRelease held run limit call).enterPhase run .hidden .metadata).deleteMetadataPage
      run limit = .error .unavailable := congrArg (okOr · _) hpass
  exact (congrArg (· >>= _) hpage)

end

end

/-! ## Unreleased references -/

theorem mem_liveReferencePage {row : FactoryRow} (h : row ∈ s.liveReferencePage run limit) :
    row ∈ s.rows ∧ s.isLiveReference run row = true :=
  mem_filter.mp ((mergeSort_perm _ _).mem_iff.mp (mem_of_mem_take h))

theorem isLiveReference_release {references : List FactoryRow}
    {row : FactoryRow} : (s.release references observedAt).isLiveReference run row = true ↔
      s.isLiveReference run row = true ∧ row ∉ references := by
  by_cases hrow : row ∈ references <;> simp [isLiveReference, release, hrow]

/-- The number of unreleased references of the Run. -/
def liveReferences (run : FactoryRunId) (s : FactoryDb) : Nat :=
  (s.rows.filter (s.isLiveReference run)).length

theorem liveReferences_eq_zero :
    s.liveReferences run = 0 ↔ ∀ row ∈ s.rows, s.isLiveReference run row = false := by
  rw [liveReferences, length_eq_zero_iff, filter_eq_nil_iff]
  simp

/-- A pass that leaves unreleased references has released some. -/
theorem liveReferences_afterRelease_lt
    (h : (s.afterRelease held run limit call).liveReferences run ≠ 0) :
    (s.afterRelease held run limit call).liveReferences run < s.liveReferences run := by
  have hfilt : (s.afterRelease held run limit call).rows.filter
      ((s.afterRelease held run limit call).isLiveReference run) =
      (s.rows.filter (s.isLiveReference run)).filter (· ∉ s.liveReferencePage run limit) := by
    rw [filter_filter]
    refine filter_congr fun row _ => ?_
    rw [Bool.eq_iff_iff, Bool.and_eq_true, decide_eq_true_iff]
    exact isLiveReference_release.trans and_comm
  rw [liveReferences, hfilt] at h ⊢
  rw [liveReferences, length_filter_lt_length_iff_exists]
  -- Some row was live, so the page is not empty.
  have hlive : s.rows.filter (s.isLiveReference run) ≠ [] := by
    intro hnil
    rw [hnil] at h
    exact h rfl
  have hpage : s.liveReferencePage run limit ≠ [] := by
    rw [liveReferencePage, Ne, take_eq_nil_iff, not_or]
    refine ⟨Nat.ne_of_gt limit.positive, fun hnil => hlive ?_⟩
    exact length_eq_zero_iff.mp (by rw [← length_mergeSort, hnil]; rfl)
  obtain ⟨row, hrow⟩ := exists_mem_of_ne_nil _ hpage
  exact ⟨row, mem_filter.mpr (mem_liveReferencePage hrow), by simp [hrow]⟩

theorem remaining_eq_false : s.remaining run = false ↔
    s.liveReferences run = 0 ∧ InputsDeleted run s.rows := by
  rw [liveReferences_eq_zero]
  simp [remaining, InputsDeleted]

/-! ## Outcomes of a call -/

/-- The state after a call that yields the work. -/
structure Yielded (held : FactoryRunId → Timestamp → Bool) (run : FactoryRunId)
    (observedAt : Timestamp) (rows : List FactoryRow) (live : Nat) (t : FactoryDb) : Prop where
  rows : t.rows = rows
  live : t.liveReferences run = live
  due : ∀ later, observedAt ≤ later → held run later = false → t.Due held run later

/-- The state after a call that completes the work. -/
structure Finished (run : FactoryRunId) (rows : List FactoryRow) (t : FactoryDb) : Prop where
  rows : t.rows = rows
  work : ∃ work, t.work.find? run = some work ∧ work.claim = none ∧ work.completedAt ≠ none

theorem Working.withRows (h : Working run s work)
    (rows : List FactoryRow) : Working run { s with rows := rows } work :=
  ⟨h.found, h.row, h.incomplete, h.phase⟩

theorem Working.complete_finished (h : Working run s work)
    (observedAt : Timestamp) : Finished run s.rows (s.completeWork run observedAt) := by
  have hid : work.runId = run := Table.key_of_find? h.found
  refine ⟨rfl, work.complete observedAt, ?_, rfl, Option.some_ne_none _⟩
  simp [completeWork, Table.find?_updateWhere, h.found, hid]

/-- A call releases references, or a foreign key is violated, or a page is deleted,
    or there is none and the work is completed. -/
inductive CallCase (held : FactoryRunId → Timestamp → Bool) (run : FactoryRunId) (limit : PageLimit)
    (s : FactoryDb) (call : CleanupCall) : Prop
  | releases (t : FactoryDb) (released : Nat)
      (remaining : (s.afterRelease held run limit call).remaining run = true)
      (result : s.cleanupCall held run limit call = .ok (t, ⟨released, 0, false⟩))
      (yielded : Yielded held run call.observedAt s.rows
        ((s.afterRelease held run limit call).liveReferences run) t)
  | violates (remaining : (s.afterRelease held run limit call).remaining run = false)
      (pass : deletePass FactoryRow.refers limit.value (deleteSteps run) s.rows = none)
      (result : s.cleanupCall held run limit call = .error .unavailable)
  | deletes (t : FactoryDb) (released deleted : Nat) (rows : List FactoryRow)
      (remaining : (s.afterRelease held run limit call).remaining run = false)
      (pass : deletePass FactoryRow.refers limit.value (deleteSteps run) s.rows = some (rows, deleted))
      (some_deleted : deleted ≠ 0)
      (result : s.cleanupCall held run limit call = .ok (t, ⟨released, deleted, false⟩))
      (yielded : Yielded held run call.observedAt rows 0 t)
  | completes (t : FactoryDb) (released : Nat) (rows : List FactoryRow)
      (remaining : (s.afterRelease held run limit call).remaining run = false)
      (pass : deletePass FactoryRow.refers limit.value (deleteSteps run) s.rows = some (rows, 0))
      (result : s.cleanupCall held run limit call = .ok (t, ⟨released, 0, true⟩))
      (finished : Finished run rows t)

theorem Due.call_case (hdue : s.Due held run call.observedAt)
    (hclaim : call.observedAt < call.claim.expiresAt) (hfree : held run call.observedAt = false) :
    CallCase held run limit s call := by
  obtain ⟨work, hopened⟩ := hdue.opened
  have hrelsd : Working run (s.afterRelease held run limit call) work :=
    ⟨hopened.found, hopened.row, hopened.incomplete, hopened.phase⟩
  cases hrem : (s.afterRelease held run limit call).remaining run with
  | true =>
    exact .releases _ _ hrem (hdue.cleanupCall_remaining hclaim hfree hrem)
      ⟨rfl, rfl, fun later hle => hrelsd.yield_due hle⟩
  | false =>
    obtain ⟨work, hmeta⟩ := hrelsd.enterPhase
    cases hpass : deletePass FactoryRow.refers limit.value (deleteSteps run) s.rows with
    | none =>
      exact .violates hrem hpass (hdue.cleanupCall_violation hclaim hfree hrem hpass)
    | some pair =>
      obtain ⟨rows, deleted⟩ := pair
      have hres := hdue.cleanupCall_deletes hclaim hfree hrem hpass
      by_cases hzero : deleted = 0
      · subst hzero
        exact .completes _ _ rows hrem hpass hres
          ((hmeta.withRows rows).complete_finished call.observedAt)
      · rw [if_neg hzero] at hres
        refine .deletes _ _ deleted rows hrem hpass hzero hres ⟨rfl, ?_, fun later hle => ?_⟩
        · have hsubl := deletePass_sublist limit.positive hpass
          have hlive := liveReferences_eq_zero.mp (remaining_eq_false.mp hrem).1
          exact liveReferences_eq_zero.mpr fun row hrow => hlive row (hsubl.subset hrow)
        · exact (hmeta.withRows rows).yield_due hle

/-- Completed work is not advanced any more. -/
theorem Finished.cleanupCall (h : Finished run rows s) :
    s.cleanupCall held run limit call = .error .notFound := by
  obtain ⟨work, hwork, hclaim, hcompl⟩ := h.work
  have hid : work.runId = run := Table.key_of_find? hwork
  have hunclaimable : s.isClaimable held call.observedAt work = false := by
    by_contra hclaimable
    obtain ⟨_, -, hnone, -⟩ := isClaimable_iff.mp (Bool.eq_true_of_not_eq_false hclaimable)
    exact hcompl hnone
  have hstill : (s.claimRun held run call.claim call.observedAt).work.find? run = some work := by
    simp [claimRun, Table.find?_updateWhere, hwork, hid, hunclaimable]
  have hlock : (s.claimRun held run call.claim call.observedAt).lockEligibleWork held
      ⟨run, call.claim.owner, call.observedAt, limit⟩ = .error .notFound := by
    simp only [FactoryDb.lockEligibleWork, hstill]
    split
    · rename_i found row hfound _
      cases hfound
      exact if_neg fun h => hcompl h.2
    · rfl
  rw [FactoryDb.cleanupCall, advance, hlock]
  rfl

/-! ## Repeated calls -/

/-- The calls after the first one. -/
def laterCalls (calls : Nat → CleanupCall) : Nat → CleanupCall := fun n => calls (n + 1)

theorem ValidCalls.later (h : ValidCalls held run calls) : ValidCalls held run (laterCalls calls) :=
  ⟨fun n => h.claimed (n + 1), fun n => h.ascending (n + 1), fun n => h.free (n + 1)⟩

theorem afterCalls_succ (calls : Nat → CleanupCall) (n : Nat) :
    s.afterCalls held run limit calls (n + 1) =
      (s.cleanupCall held run limit (calls 0)).bind fun (t, _) =>
        t.afterCalls held run limit (laterCalls calls) n := by
  induction n with
  | zero => rfl
  | succ n ih =>
    rw [afterCalls, ih]
    cases s.cleanupCall held run limit (calls 0) with
    | error error => rfl
    | ok pair => rfl

theorem afterCalls_of_ok (h : s.cleanupCall held run limit (calls 0) = .ok (t, outcome)) (n : Nat) :
    s.afterCalls held run limit calls (n + 1) = t.afterCalls held run limit (laterCalls calls) n := by
  rw [afterCalls_succ, h]
  rfl

/-- Some call completes the work and leaves no row of the Run. -/
def Completes (held : FactoryRunId → Timestamp → Bool) (run : FactoryRunId) (limit : PageLimit)
    (calls : Nat → CleanupCall) (s : FactoryDb) : Prop :=
  ∃ n t u outcome, s.afterCalls held run limit calls n = .ok t ∧
    t.cleanupCall held run limit (calls n) = .ok (u, outcome) ∧ outcome.completed = true ∧
    ∀ row ∈ u.rows, row.runId ≠ run

theorem Completes.of_next (hcall : s.cleanupCall held run limit (calls 0) = .ok (t, outcome))
    (h : Completes held run limit (laterCalls calls) t) : Completes held run limit calls s := by
  obtain ⟨n, u, v, last, hafter, hlast, hcompd, hrows⟩ := h
  exact ⟨n + 1, u, v, last, (afterCalls_of_ok hcall n).trans hafter, hlast, hcompd, hrows⟩

theorem completes_of_drains (hvalid : ValidCalls held run calls)
    (hdue : s.Due held run (calls 0).observedAt) (hinputs : InputsDeleted run s.rows)
    (hdrains : Drains FactoryRow.refers limit.value (deleteSteps run) s.rows) :
    Completes held run limit calls s := by
  obtain ⟨n, rest, hpasses, hnone⟩ := hdrains
  -- A call lowers the number of unreleased references or that of the passes to come.
  induction hmeasure : s.liveReferences run + n using Nat.strongRecOn generalizing s calls n with
  | ind measure ih =>
    have hnext : (calls 0).observedAt ≤ (laterCalls calls 0).observedAt := hvalid.ascending 0
    have hcase : CallCase held run limit _ (calls 0) :=
      hdue.call_case (hvalid.claimed 0) (hvalid.free 0)
    cases hcase with
    | releases t released hrem hres hyield =>
      have hlive : (s.afterRelease held run limit (calls 0)).liveReferences run ≠ 0 := by
        intro hzero
        rw [remaining_eq_false.mpr ⟨hzero, hinputs⟩] at hrem
        cases hrem
      have hlt := liveReferences_afterRelease_lt hlive
      refine .of_next hres (ih _ ?_ hvalid.later (hyield.due _ hnext (hvalid.free 1)) ?_ n ?_ rfl)
      · rw [hyield.live]
        omega
      · rw [hyield.rows]
        exact hinputs
      · rw [hyield.rows]
        exact hpasses
    | violates _ hpass hres =>
      obtain ⟨_, _, hsome, -⟩ := Drains.next limit.positive ⟨n, rest, hpasses, hnone⟩
      rw [hpass] at hsome
      cases hsome
    | deletes t released deleted rows _ hpass hsome hres hyield =>
      cases n with
      | zero =>
        cases hpasses
        rw [deletePass_idle limit.positive hnone] at hpass
        cases hpass
        exact (hsome rfl).elim
      | succ n =>
        obtain ⟨next, k, hfirst, hrest⟩ := deletePasses_succ_eq_some.mp hpasses
        cases hpass.symm.trans hfirst
        have hsubl := deletePass_sublist limit.positive hpass
        refine .of_next hres (ih _ ?_ hvalid.later (hyield.due _ hnext (hvalid.free 1)) ?_ n ?_ rfl)
        · rw [hyield.live]
          omega
        · rw [hyield.rows]
          exact hinputs.subset hsubl.subset
        · rw [hyield.rows]
          exact hrest
    | completes t released rows _ hpass hres hfin =>
      have hnone := Drains.none_selected limit.positive (deleteSteps_selectOnce run)
        ⟨n, rest, hpasses, hnone⟩ hpass
      refine ⟨0, s, t, _, rfl, hres, rfl, fun row hrow hrun => ?_⟩
      rw [hfin.rows, (deletePass_zero limit.positive hpass).1] at hrow
      exact hnone row hrow (selected_iff.mpr ⟨hrun, hinputs row hrow hrun⟩)

/-- Calls that complete the work have deleted the rows by passes. -/
theorem Completes.drains (h : Completes held run limit calls s) (hvalid : ValidCalls held run calls)
    (hdue : s.Due held run (calls 0).observedAt) :
    InputsDeleted run s.rows ∧ Drains FactoryRow.refers limit.value (deleteSteps run) s.rows := by
  obtain ⟨n, t, u, outcome, hafter, hlast, hcompd, hnone⟩ := h
  induction n generalizing s calls with
  | zero =>
    cases hafter
    have hcase : CallCase held run limit _ (calls 0) :=
      hdue.call_case (hvalid.claimed 0) (hvalid.free 0)
    cases hcase with
    | releases t released _ hres _ =>
      cases hlast.symm.trans hres
      cases hcompd
    | violates _ _ hres => cases hlast.symm.trans hres
    | deletes t released deleted rows _ _ _ hres _ =>
      cases hlast.symm.trans hres
      cases hcompd
    | completes t released rows hrem hpass hres hfin =>
      cases hlast.symm.trans hres
      rw [hfin.rows, (deletePass_zero limit.positive hpass).1] at hnone
      exact ⟨(remaining_eq_false.mp hrem).2, 0, _, rfl, fun row hrow hsel =>
        hnone row hrow (selected_iff.mp hsel).1⟩
  | succ n ih =>
    have hnext : (calls 0).observedAt ≤ (laterCalls calls 0).observedAt := hvalid.ascending 0
    have hcase : CallCase held run limit _ (calls 0) :=
      hdue.call_case (hvalid.claimed 0) (hvalid.free 0)
    cases hcase with
    | releases t released _ hres hyield =>
      rw [afterCalls_of_ok hres] at hafter
      have hrest := ih hvalid.later (hyield.due _ hnext (hvalid.free 1)) hafter hlast
      rw [hyield.rows] at hrest
      exact hrest
    | violates _ _ hres =>
      rw [afterCalls_succ, hres] at hafter
      cases hafter
    | deletes t released deleted rows hrem hpass _ hres hyield =>
      rw [afterCalls_of_ok hres] at hafter
      obtain ⟨-, m, rest, hpasses, hrest⟩ :=
        ih hvalid.later (hyield.due _ hnext (hvalid.free 1)) hafter hlast
      rw [hyield.rows] at hpasses
      exact ⟨(remaining_eq_false.mp hrem).2, m + 1, rest,
        deletePasses_succ_eq_some.mpr ⟨rows, deleted, hpass, hpasses⟩, hrest⟩
    | completes t released rows _ _ hres hfin =>
      -- The next call finds the work completed.
      rw [afterCalls_of_ok hres] at hafter
      cases n with
      | zero =>
        cases hafter
        have hlast' : t.cleanupCall held run limit (calls 1) = .ok (u, outcome) := hlast
        rw [hfin.cleanupCall] at hlast'
        cases hlast'
      | succ n =>
        rw [afterCalls_succ, hfin.cleanupCall] at hafter
        cases hafter

/-! ## Other Runs -/

/-- Nothing of the other Runs differs. -/
structure SameElsewhere (run : FactoryRunId) (s t : FactoryDb) : Prop where
  rows : t.rows.filter (·.runId ≠ run) = s.rows.filter (·.runId ≠ run)
  releasedAt : ∀ row, row.runId ≠ run → t.releasedAt row = s.releasedAt row
  runs : ∀ other, other ≠ run → t.runs.find? other = s.runs.find? other
  work : ∀ other, other ≠ run → t.work.find? other = s.work.find? other

namespace SameElsewhere

theorem trans {u : FactoryDb} (h : SameElsewhere run s t) (h' : SameElsewhere run t u) :
    SameElsewhere run s u :=
  ⟨h'.rows.trans h.rows, fun row hrow => (h'.releasedAt row hrow).trans (h.releasedAt row hrow),
    fun other hne => (h'.runs other hne).trans (h.runs other hne),
    fun other hne => (h'.work other hne).trans (h.work other hne)⟩

/-- A statement on the work of the Run. -/
theorem updateWork {p : FactoryRetentionWork → Bool} {f : FactoryRetentionWork → FactoryRetentionWork}
    (hkey : ∀ work, (f work).runId = work.runId) (hp : ∀ work, p work = true → work.runId = run) :
    SameElsewhere run s { s with work := s.work.updateWhere p f hkey } := by
  refine ⟨rfl, fun _ _ => rfl, fun _ _ => rfl, fun other hne => ?_⟩
  rw [Table.find?_updateWhere]
  cases hfound : s.work.find? other with
  | none => rfl
  | some work =>
    refine congrArg some (if_neg fun h => hne ?_)
    rw [← Table.key_of_find? hfound, hp work h]

theorem hideRun (observedAt : Timestamp) : SameElsewhere run s (s.hideRun run observedAt) := by
  refine ⟨rfl, fun _ _ => rfl, fun other hne => ?_, fun _ _ => rfl⟩
  rw [FactoryDb.hideRun, Table.find?_updateWhere]
  cases hfound : s.runs.find? other with
  | none => rfl
  | some row =>
    refine congrArg some (if_neg fun h => hne ?_)
    rw [← Table.key_of_find? hfound, (of_decide_eq_true h).1]

theorem release (observedAt : Timestamp) :
    SameElsewhere run s (s.release (s.liveReferencePage run limit) observedAt) := by
  refine ⟨rfl, fun row hrow => if_neg fun hmem => hrow ?_, fun _ _ => rfl, fun _ _ => rfl⟩
  exact (of_decide_eq_true (mem_liveReferencePage hmem).2).2.1

theorem deletePass
    (h : Lib.deletePass FactoryRow.refers limit.value (deleteSteps run) s.rows = some (rows, n)) :
    SameElsewhere run s { s with rows := rows } := by
  refine ⟨deletePass_filter limit.positive h _ fun step hstep row hsels => ?_, fun _ _ => rfl,
    fun _ _ => rfl, fun _ _ => rfl⟩
  have hrun := (selected_iff.mp ⟨step, hstep, hsels⟩).1
  simp [hrun]

end SameElsewhere

theorem enterPhase_elsewhere (current next : FactoryRetentionPhase) :
    SameElsewhere run s (s.enterPhase run current next) :=
  .updateWork _ fun _ h => (of_decide_eq_true h).1

/-- A pass changes nothing of the other Runs and deletes at most a page. -/
theorem advance_elsewhere {request : AdvanceFactoryRetentionWork}
    (h : s.advance held request = .ok (t, outcome)) :
    SameElsewhere request.runId s t ∧ outcome.deletedRecords ≤ request.pageLimit.value := by
  rw [advance] at h
  obtain ⟨-, -, h⟩ := bind_eq_ok.mp h
  have hopen := ((@SameElsewhere.hideRun request.runId s request.observedAt).trans
    (enterPhase_elsewhere .pending .hidden)).trans
      (@SameElsewhere.release request.runId request.pageLimit _ request.observedAt)
  dsimp only at h
  split at h
  · cases h
    exact ⟨hopen.trans (.updateWork _ fun _ h => of_decide_eq_true h), Nat.zero_le _⟩
  · obtain ⟨⟨rows, deleted⟩, hpass, h⟩ := bind_eq_ok.mp h
    have hpass := okOr_eq_ok.mp hpass
    have hdel := (hopen.trans (enterPhase_elsewhere .hidden .metadata)).trans (.deletePass hpass)
    dsimp only at h
    split at h
    · cases h
      exact ⟨hdel.trans (.updateWork _ fun _ h => of_decide_eq_true h), Nat.zero_le _⟩
    · cases h
      exact ⟨hdel.trans (.updateWork _ fun _ h => of_decide_eq_true h),
        deletePass_le_limit request.pageLimit.positive hpass⟩

theorem cleanupCall_elsewhere (h : s.cleanupCall held run limit call = .ok (t, outcome)) :
    SameElsewhere run s t ∧ outcome.deletedRecords ≤ limit.value := by
  obtain ⟨hsame, hle⟩ := advance_elsewhere h
  have hclaim : SameElsewhere run s (s.claimRun held run call.claim call.observedAt) :=
    .updateWork _ fun _ h => (of_decide_eq_true h).1
  exact ⟨hclaim.trans hsame, hle⟩

theorem afterCalls_elsewhere
    (h : s.afterCalls held run limit calls n = .ok t) : SameElsewhere run s t := by
  induction n generalizing t with
  | zero =>
    cases h
    exact ⟨rfl, fun _ _ => rfl, fun _ _ => rfl, fun _ _ => rfl⟩
  | succ n ih =>
    rw [afterCalls] at h
    obtain ⟨u, hu, h⟩ := bind_eq_ok.mp h
    obtain ⟨⟨v, outcome⟩, hcall, h⟩ := bind_eq_ok.mp h
    cases h
    exact (ih hu).trans (cleanupCall_elsewhere hcall).1

/-! ## The result -/

/-- Repeated calls clean the Run up: some call completes with no row of the Run
    left, every call deletes at most a page, and nothing of the other Runs differs. -/
structure CleansUp (held : FactoryRunId → Timestamp → Bool) (run : FactoryRunId) (limit : PageLimit)
    (calls : Nat → CleanupCall) (s : FactoryDb) : Prop where
  completes : Completes held run limit calls s
  paged : ∀ n t u outcome, s.afterCalls held run limit calls n = .ok t →
    t.cleanupCall held run limit (calls n) = .ok (u, outcome) →
      outcome.deletedRecords ≤ limit.value
  elsewhere : ∀ n t, s.afterCalls held run limit calls n = .ok t → SameElsewhere run s t

/-- When the passes delete all rows of a Run. -/
structure CleanupCondition (run : FactoryRunId) (limit : PageLimit) (rows : List FactoryRow) :
    Prop where
  inputs : InputsDeleted run rows
  unshared : Unshared run rows
  order : BlockedInOrder (deleteSteps run) rows
  links : ∀ n rest,
    deletePasses FactoryRow.refers limit.value (deleteSteps run) n rows = some rest →
      CycleLinksClear run limit.value rest

/-- Under valid claims the calls clean a Run up if and only if its rows meet the
    condition. -/
theorem cleansUp_iff (hvalid : ValidCalls held run calls)
    (hdue : s.Due held run (calls 0).observedAt) :
    CleansUp held run limit calls s ↔ CleanupCondition run limit s.rows := by
  constructor
  · intro h
    obtain ⟨hinputs, hdrains⟩ := h.completes.drains hvalid hdue
    obtain ⟨hunsh, horder, hlinks⟩ := (drains_deleteSteps_iff limit.positive hinputs).mp hdrains
    exact ⟨hinputs, hunsh, horder, hlinks⟩
  · intro h
    have hdrains := (drains_deleteSteps_iff limit.positive h.inputs).mpr
      ⟨h.unshared, h.order, h.links⟩
    exact ⟨completes_of_drains hvalid hdue h.inputs hdrains,
      fun _ _ _ _ _ hcall => (cleanupCall_elsewhere hcall).2, fun _ _ => afterCalls_elsewhere⟩

/-! ## Runs with one and with two workflow cycles -/

namespace Sample

/-- One of the first 1000 milliseconds. -/
def instant (unixMillis : Nat) : Timestamp :=
  ⟨min unixMillis 1000, supported_small unixMillis⟩

def entity {kind : FactoryEntityKind} (n : Nat) : FactoryId kind := ⟨n + 1, Nat.succ_ne_zero n⟩

theorem two_le_batch : 2 ≤ maxFactoryRetentionCleanupBatchSize := by decide

def twoRows : PageLimit := ⟨2, Nat.two_pos, two_le_batch⟩

/-- A call every millisecond until the clock stops. -/
def everyMillisecond (n : Nat) : CleanupCall :=
  ⟨⟨⟨"worker"⟩, instant (min n 900 + 1)⟩, instant (min n 900)⟩

def unheld : FactoryRunId → Timestamp → Bool := fun _ _ => false

/-- The only Flow Run, with an attempt in its first cycle. -/
def firstCycle : List FactoryRow :=
  [.flowRun (entity 0) (entity 0) none none, .workflowCycle (entity 0) (entity 0) (entity 0) none none,
    .nodeAttempt (entity 0) (entity 0) (entity 0) (entity 0),
    .nodeAttemptCompletion ⟨0⟩ (entity 0) (entity 0)]

/-- A second cycle that the attempt has started. -/
def secondCycle : List FactoryRow :=
  [.workflowCycle (entity 1) (entity 0) (entity 0) (some (entity 0)) (some (entity 0)),
    .nodeAttempt (entity 1) (entity 0) (entity 0) (entity 1)]

/-- A completed Run with these rows. -/
def store (rows : List FactoryRow) : FactoryDb where
  runs := Table.empty.put ⟨entity 0, .completed, true, none⟩
  work := Table.empty.put ⟨entity 0, .pending, instant 0, 0, none, none⟩
  rows := rows
  releasedAt := fun _ => none

theorem everyMillisecond_valid : ValidCalls unheld (entity 0) everyMillisecond := by
  refine ⟨fun n => ?_, fun n => ?_, fun _ => rfl⟩
  · simp only [everyMillisecond, instant, Timestamp.lt_iff]
    omega
  · simp only [everyMillisecond, instant, Timestamp.le_iff]
    omega

theorem store_due (rows : List FactoryRow) :
    (store rows).Due unheld (entity 0) (everyMillisecond 0).observedAt :=
  ⟨⟨entity 0, .pending, instant 0, 0, none, none⟩, rfl, FactoryRetentionPhase.noConfusion, rfl⟩

/-- The attempt that started the second cycle cannot be deleted: its page violates
    the foreign key of the cycle, so no call completes the work. -/
theorem second_cycle_stays : ForeignKeys (firstCycle ++ secondCycle) ∧
    ¬ CleansUp unheld (entity 0) twoRows everyMillisecond (store (firstCycle ++ secondCycle)) := by
  refine ⟨by decide, fun h => ?_⟩
  obtain ⟨-, hdrains⟩ := h.completes.drains everyMillisecond_valid (store_due _)
  -- The first pass deletes the completion, the second fails.
  obtain ⟨rest, hrest⟩ : ∃ rest, deletePasses FactoryRow.refers twoRows.value
      (deleteSteps (entity 0)) 1 (firstCycle ++ secondCycle) = some rest ∧
        deletePass FactoryRow.refers twoRows.value (deleteSteps (entity 0)) rest = none :=
    ⟨_, rfl, by decide +kernel⟩
  obtain ⟨_, _, hpass, -⟩ := (hdrains.after twoRows.positive hrest.1).next twoRows.positive
  rw [hrest.2] at hpass
  cases hpass

/-- An attempt that restarts its cycle and calls a Flow Run. -/
def linkedCycles : List FactoryRow :=
  [.flowRun (entity 0) (entity 0) none none, .workflowCycle (entity 0) (entity 0) (entity 0) none none,
    .nodeAttempt (entity 0) (entity 0) (entity 0) (entity 0),
    .flowRun (entity 1) (entity 0) (some (entity 0)) (some (entity 0)),
    .workflowCycle (entity 2) (entity 0) (entity 1) none none,
    .workflowCycle (entity 1) (entity 0) (entity 0) (some (entity 0)) (some (entity 0))]

instance (run : FactoryRunId) (limit : Nat) (rows : List FactoryRow) :
    Decidable (CycleLinksClear run limit rows) :=
  decidable_of_iff (_ ∧ _) ⟨fun h => ⟨h.1, h.2⟩, fun h => ⟨h.1, h.2⟩⟩

theorem linked_cycles_condition : CleanupCondition (entity 0) twoRows linkedCycles := by
  have hrank : ∀ step ∈ deleteSteps (entity 0), ∀ row ∈ linkedCycles, step.selects row = true →
      ∀ other ∈ linkedCycles, step.blockedBy row other = true →
        Selected (deleteSteps (entity 0)) other ∧
          linkedCycles.length - linkedCycles.idxOf other <
            linkedCycles.length - linkedCycles.idxOf row := by
    decide +kernel
  refine ⟨by decide, by decide, ⟨_, hrank⟩, fun n rest hrest => ?_⟩
  have hdone : deletePasses FactoryRow.refers twoRows.value (deleteSteps (entity 0)) 5
      linkedCycles = some [] := by
    decide +kernel
  have hclear : ∀ n < 5, ∀ rest ∈ deletePasses FactoryRow.refers twoRows.value
      (deleteSteps (entity 0)) n linkedCycles, CycleLinksClear (entity 0) twoRows.value rest := by
    decide +kernel
  by_cases hn : n < 5
  · exact hclear n hn rest hrest
  · -- The fifth pass leaves nothing.
    obtain ⟨k, rfl⟩ := Nat.exists_eq_add_of_le (not_lt.mp hn)
    rw [deletePasses_add, hdone, Option.bind_some] at hrest
    rw [sublist_nil.mp (deletePasses_sublist twoRows.positive hrest)]
    decide

/-- The attempt waits for the Flow Run it called, so the second cycle goes before it. -/
theorem linked_cycles_cleaned :
    CleansUp unheld (entity 0) twoRows everyMillisecond (store linkedCycles) :=
  (cleansUp_iff everyMillisecond_valid (store_due linkedCycles)).mpr linked_cycles_condition

end Sample

end FactoryDb

end OctaCity.Retention
