/-
  OctaCity.Store.LeaseMoves

  How a write may move one Lease.  A Lease is renewed or expired by timed writes
  only, a directive changes its state alone, and it ends together with its Job
  (`WriteIn.leaseMoves`).
-/
import OctaCity.Store.Ownership

namespace OctaCity.Store

open Domain Job Lib Orchestrator Pipeline

namespace StoreState

variable {rules : CoreRules} {timed grants : Bool} {s s' : StoreState}

/-- Whether a Job has ended. -/
def Ended (s : StoreState) (jobId : JobId) : Prop :=
  ∃ state, s.stateOf jobId = some state ∧ state.isTerminal = true

/-- One move of a Lease row into the store `s'`. -/
inductive LeaseMove (timed : Bool) (s' : StoreState) (row : LeaseRow) : LeaseRow → Prop
  | stay : LeaseMove timed s' row row
  | renewed (expiresAt : Timestamp) (htimed : timed = true)
      (hcur : row.state.isCurrent = true) : LeaseMove timed s' row (row.withDeadline expiresAt)
  | directed (state : LeaseState) (hcur : row.state.isCurrent = true)
      (hstate : state = .drainRequested ∨ state = .cancellationRequested) :
      LeaseMove timed s' row (row.withState state)
  | finished (state : LeaseState) (hcur : row.state.isCurrent = true)
      (hstate : state.isCurrent = false) (huntim : timed = false → state ≠ .expired)
      (hended : s'.Ended row.jobId) : LeaseMove timed s' row (row.withState state)
  | requeued (htimed : timed = true) (hcur : row.state.isCurrent = true) :
      LeaseMove timed s' row (row.withState .expired)

variable {new : LeaseRow → Prop} {lease : LeaseRow}

theorem leases_stay (h : s'.leases = s.leases) :
    s.leases.Evolves (LeaseMove timed s') new s'.leases := by
  rw [h]
  exact .refl (fun _ => .stay) _

/-- A lookup finds the one row it is about. -/
theorem lease_eq_of_find? {row : LeaseRow} {id : LeaseId}
    (hlease : s.leases.find? lease.id = some lease) (hrow : s.leases.find? id = some row)
    (hid : row.id = lease.id) : row = lease := by
  rw [← hid, Table.key_of_find? hrow, hrow] at hlease
  exact Option.some.inj hlease

theorem redirectLeases_find? (p : LeaseRow → Bool) (state : LeaseState) (id : LeaseId) :
    (s.redirectLeases p state).leases.find? id = (s.leases.find? id).map fun row =>
      if p row ∧ row.state.takesDirective then row.withState state else row := by
  rw [redirectLeases, updateLeases_find?]
  simp only [decide_eq_true_eq]

/-- The Leases a directive reaches. -/
theorem redirect_leaseMoves {p : LeaseRow → Bool} {state : LeaseState}
    (hdir : state = .drainRequested ∨ state = .cancellationRequested)
    (hlses : ∀ id, s'.leases.find? id = (s.leases.find? id).map fun row =>
      if p row ∧ row.state.takesDirective then row.withState state else row) :
    s.leases.Evolves (LeaseMove timed s') new s'.leases := by
  refine evolves_of_find? hlses fun id row _ => ?_
  split
  · rename_i htakes
    exact .directed state (takesDirective_isCurrent htakes.2) hdir
  · exact .stay

/-- The one Lease that a write closes. -/
theorem close_leaseMoves (state : LeaseState) (hlease : s.leases.find? lease.id = some lease)
    (hlses : ∀ id, s'.leases.find? id = (s.leases.find? id).map fun row =>
      if row.id = lease.id then row.withState state else row)
    (hmove : LeaseMove timed s' lease (lease.withState state)) :
    s.leases.Evolves (LeaseMove timed s') new s'.leases := by
  refine evolves_of_find? hlses fun id row hrow => ?_
  split
  · rename_i hid
    rw [lease_eq_of_find? hlease hrow hid]
    exact hmove
  · exact .stay

theorem finish_ended {job : JobRow} {leaseState : LeaseState} {terminal : JobState}
    (hjob : s.jobs.find? lease.jobId = some job) (hterm : terminal.isTerminal = true) :
    (s.finishJob lease leaseState terminal).Ended lease.jobId := by
  refine ⟨terminal, ?_, hterm⟩
  rw [(finishJob_edits lease leaseState terminal).stateOf, stateOf_eq_some.mpr ⟨job, hjob, rfl⟩,
    Option.map_some, if_pos rfl]

/-- Every write moves the Leases one step; only a grant adds one, which is active. -/
theorem WriteIn.leaseMoves (h : WriteIn rules timed grants s s') :
    s.leases.Evolves (LeaseMove timed s') (fun row => row.state = .active ∧ grants = true)
      s'.leases := by
  cases h with
  | record | administer | agents | pools | hideLogs | begin | events | logs | aggregate
  | workerClaims => exact leases_stay rfl
  | accept hbuild hins hatt hstate hgraph hmat =>
    refine leases_stay ?_
    rw [(materializeAttempt_eq_ok hmat).1, (insertBuild_eq_ok hins).1]
  | retry hbuild hfailed hsrc hlost hnum hstate hgraph hmat =>
    refine leases_stay ?_
    rw [(materializeAttempt_eq_ok hmat).1]
    rfl
  | take hgrant hjob hready hreg hfree hact htake =>
    obtain ⟨-, -, -, hlses, hfresh, -⟩ := takeJob_eq_ok htake
    exact evolves_of_insert (fun _ => .stay) hfresh ⟨hact, hgrant⟩ hlses
  | renew htimed hlease hcur hrenew =>
    obtain ⟨-, hlses⟩ := renewDeadline_eq_ok hrenew
    refine evolves_of_find? hlses fun id row hrow => ?_
    split
    · rename_i hid
      rw [lease_eq_of_find? hlease hrow hid]
      exact .renewed _ htimed hcur
    · exact .stay
  | @finish lease job leaseState terminal huntim hlease hcur hended hjob hheld hterm =>
    exact close_leaseMoves leaseState hlease (closeLease_find? lease.id leaseState)
      (.finished leaseState hcur hended huntim (finish_ended hjob hterm))
  | @requeue _ lease path requeues htimed hlease hcur hpath hstate henq =>
    refine close_leaseMoves .expired hlease (fun id => ?_) (.requeued htimed hcur)
    rw [(enqueue_eq_ok henq).1]
    exact closeLease_find? lease.id .expired id
  | unblock hunblk => exact leases_stay (by rw [(unblock_eq_ok hunblk).1])
  | complete hjob hterm hlease hsame hins =>
    exact leases_stay (by rw [(insertCompletion_eq_ok hins).1])
  | @cancel _ attempt build cancelled cancelling attemptState buildState hbuild hatt hact
      hcanc hcing hterm hnfail hins =>
    refine redirect_leaseMoves (p := fun row => row.jobId ∈ cancelling) (.inr rfl) fun id => ?_
    rw [(insertCancellation_eq_ok hins).1, aggregate_eq, propagate_eq]
    exact redirectLeases_find? (s := s) _ _ id
  | @redirect p state hdir =>
    exact redirect_leaseMoves (p := p) hdir (redirectLeases_find? p state)

/-- Neither worker claims nor recorded heartbeats change outside of timed writes. -/
theorem WriteIn.untimed (h : WriteIn rules false grants s s') :
    s'.workerClaims = s.workerClaims ∧ s'.idempotency.renewLease = s.idempotency.renewLease := by
  obtain ⟨-, hrecs, hclaims⟩ | ⟨records, rfl, huntim, -⟩ | ⟨jobId, leaseId, events, rfl, -⟩ :=
    h.logged
  · rw [hrecs]
    exact ⟨hclaims rfl, rfl⟩
  · exact ⟨rfl, huntim rfl⟩
  · exact ⟨rfl, rfl⟩

/-! ## Completed Leases -/

theorem LeaseMove.jobId {row row' : LeaseRow} (h : LeaseMove timed s' row row') :
    row'.jobId = row.jobId := by
  cases h <;> rfl

/-- An ended Job stays ended. -/
theorem Ended.writes {jobId : JobId} (h : s.Ended jobId) (hwrites : Writes rules s s') :
    s'.Ended jobId := by
  obtain ⟨state, hstate, hterm⟩ := h
  exact ⟨state, hwrites.stateOf_terminal hstate hterm, hterm⟩

theorem Reachable.lease_completed (h : Reachable rules s) {leaseId : LeaseId}
    (hlease : s.leases.find? leaseId = some lease) (hstate : lease.state = .completed) :
    s.Ended lease.jobId := by
  refine h.induction (P := fun s => ∀ id lease, s.leases.find? id = some lease →
    lease.state = .completed → s.Ended lease.jobId) ?_ ?_ leaseId lease hlease hstate
  · intro id lease hlease
    cases hlease
  · intro s s' hs hwrite id lease' hlease' hcompd
    obtain ⟨lease, hlease, hmove⟩ | ⟨-, hact, -⟩ := hwrite.leaseMoves.origin id lease' hlease'
    · rw [hmove.jobId]
      cases hmove with
      | stay => exact (hs id _ hlease hcompd).writes (.single hwrite)
      | renewed expiresAt htimed hcur =>
        replace hcompd : lease.state = .completed := hcompd
        exact (hs id _ hlease hcompd).writes (.single hwrite)
      | directed state hcur hdir =>
        obtain rfl | rfl := hdir <;> cases hcompd
      | finished state hcur hended huntim hjob => exact hjob
      | requeued htimed hcur => cases hcompd
    · rw [hact] at hcompd
      cases hcompd

end StoreState

end OctaCity.Store
