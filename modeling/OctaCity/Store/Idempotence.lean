/-
  OctaCity.Store.Idempotence

  Requests that are delivered again.  A request which changed the store has used
  its key (`step_once`), a used key stays used (`Used.write`), and no request
  under a used key changes the store, however late and however often it comes
  (`at_most_once`).
-/
import OctaCity.Store.Evolution

namespace OctaCity.Store

open Domain Lib

namespace StoreState

variable {rules : CoreRules} {s s' : StoreState} {transaction : Transaction} {key : MutationKey}

theorem HasKey.mono {Key Request Outcome : Type} {recordKey : Key}
    {records later : IdempotencyRecords Key Request Outcome} (h : HasKey records recordKey)
    (hgrows : records <+: later) : HasKey later recordKey := by
  obtain ⟨record, hrecd, hkey⟩ := h
  exact ⟨record, hgrows.subset hrecd, hkey⟩

theorem Used.write (h : s.Used key) (hwrite : Write rules s s') : s'.Used key := by
  have hgrows := hwrite.evolution.records
  cases key with
  | materialize buildId =>
    obtain ⟨build, hbuild⟩ := h
    obtain ⟨build', hbuild', -⟩ := hwrite.evolution.builds.grows _ _ hbuild
    exact ⟨build', hbuild'⟩
  | retry key => exact h.mono hgrows.retryBuild
  | claim leaseId => exact h.mono hgrows.claimReadyJob
  | renew key => exact h.mono hgrows.renewLease
  | append key => exact h.mono hgrows.appendJobEvents
  | complete origin completionId =>
    cases origin with
    | agent => exact h.mono hgrows.completeJob
    | assignmentDelivery => exact h.mono hgrows.failLeaseAssignment
  | cancel key => exact h.mono hgrows.cancelBuild
  | drainAgent key => exact h.mono hgrows.drainAgent
  | publishPool key => exact h.mono hgrows.publishAgentPoolVersion
  | recover leaseId => exact h.mono hgrows.recoverExpiredLease

/-- A transaction that changed the store has used its key, which was free. -/
theorem step_once (rules : CoreRules) (s : StoreState) (hkey : transaction.key = some key) :
    s.step rules transaction = s ∨ ¬s.Used key ∧ (s.step rules transaction).Used key := by
  unfold step
  cases h : s.execute rules transaction with
  | ok s' =>
    have hmutates : Mutates rules true true key s s' := execute_mutates hkey (fun _ => rfl) (fun _ => rfl) h
    exact hmutates.imp_right fun hfresh => ⟨hfresh.1, hfresh.2.1⟩
  | error _ => exact .inl rfl

/-! ## Runs -/

/-- Once a request changed the store, no request under the same key ever changes it again. -/
theorem at_most_once (rules : CoreRules) (s : StoreState) (transaction again : Transaction)
    (later : List Transaction) (hkey : transaction.key.isSome = true)
    (hagain : again.key = transaction.key) (hchg : s.step rules transaction ≠ s) :
    ((s.step rules transaction).run rules later).step rules again =
      (s.step rules transaction).run rules later := by
  obtain ⟨key, hkey⟩ := Option.isSome_iff_exists.mp hkey
  have hused : ((s.step rules transaction).run rules later).Used key :=
    writes_keep (P := fun s => s.Used key) (fun _ _ hs hwrite => hs.write hwrite)
      (run_writes rules _ later) ((step_once rules s hkey).resolve_left hchg).2
  refine Or.resolve_right (step_once rules _ (hagain.trans hkey)) fun h => ?_
  exact h.1 hused

/-- A claim that is delivered again takes no second Job. -/
theorem at_most_once_onlyClaim :
    ((Sample.claimed.run Sample.acceptAll [.hideLogs ⟨1⟩]).step Sample.acceptAll
      (.claim (fun _ => true) Sample.onlyClaim)) =
        Sample.claimed.run Sample.acceptAll [.hideLogs ⟨1⟩] :=
  at_most_once Sample.acceptAll
    (run Sample.acceptAll .initial [.administer Sample.fleet, .materialize Sample.onlyBuild])
    (.claim (fun _ => false) Sample.onlyClaim) _ _ rfl rfl fun h =>
      absurd (congrArg (·.leases.rows.length) h) (by decide +kernel)

end StoreState

end OctaCity.Store
