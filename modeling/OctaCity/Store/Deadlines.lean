/-
  OctaCity.Store.Deadlines

  Ownership of a Lease until the deadline its heartbeats reported.  The expiry
  worker claims a Lease that is past its deadline and recovers it in a later
  transaction, which reads the worker claim and the state of the Lease but not its
  deadline.
-/
import OctaCity.Store.LeaseMoves

namespace OctaCity.Store

open Domain Job Lib List Orchestrator Pipeline Table

/-! ## Times of a run -/

/-- The time the request of a Lease holder or of the expiry worker carries. -/
def Transaction.requestedAt : Transaction → Option Timestamp
  | .claim _ request => some request.claimedAt
  | .renew _ request => some request.observedAt
  | .append _ request => some request.acceptedAt
  | .complete _ request | .failAssignment _ request => some request.completedAt
  | .claimExpired _ request => some request.observedAt
  | .recover request => some request.recoveredAt
  | _ => none

def Transaction.heartbeat : Transaction → Option RenewLease
  | .renew _ request => some request
  | _ => none

def requestTimes (transactions : List Transaction) : List Timestamp :=
  transactions.filterMap Transaction.requestedAt

def heartbeats (transactions : List Transaction) : List RenewLease :=
  transactions.filterMap Transaction.heartbeat

/-- Requests carry times that do not decrease. -/
def Ordered (transactions : List Transaction) : Prop :=
  (requestTimes transactions).Pairwise (· ≤ ·)

/-- The heartbeats of one Lease ask for deadlines that do not decrease, as they
    do when each asks for its own time plus a fixed lifetime. -/
def Steady (transactions : List Transaction) : Prop :=
  (heartbeats transactions).Pairwise fun earlier later =>
    earlier.lease.leaseId = later.lease.leaseId → earlier.expiresAt ≤ later.expiresAt

/-- The deadline a heartbeat reports. -/
def LeaseHeartbeatOutcome.deadline : LeaseHeartbeatOutcome → Option Timestamp
  | .continue expiresAt | .drain expiresAt => some expiresAt
  | .cancel | .fenced => none

/-- The errors that tell the holder of a Lease that its request is not accepted. -/
def StoreError.refusesHolder : StoreError → Bool
  | .fenced _ | .expired _ | .conflict _ | .invalidInput .. => true
  | _ => false

namespace StoreState

variable {rules : CoreRules} {s s' : StoreState}

/-! ## The timed transactions -/

variable {now : Timestamp} {request : RenewLease} {outcome : LeaseHeartbeatOutcome}
  {error : StoreError}

/-- What a heartbeat did: it was replayed or fenced, or it was recorded for a
    current Lease before its deadline. -/
theorem renewLease_eq_ok (h : s.renewLease now request = .ok (outcome, s')) :
    s' = s ∧ (outcome = .fenced ∨
      ⟨request.idempotencyKey, request.fingerprint, outcome⟩ ∈ s.idempotency.renewLease) ∨
    ∃ lease, s.leases.find? request.lease.leaseId = some lease ∧
      lease.state.isCurrent = true ∧ request.observedAt < lease.expiresAt ∧
      s'.workerClaims = s.workerClaims ∧ s'.idempotency.renewLease =
        s.idempotency.renewLease ++ [⟨request.idempotencyKey, request.fingerprint, outcome⟩] ∧
      (outcome.deadline = none ∧ s'.leases = s.leases ∨
        outcome.deadline = some request.expiresAt ∧ ∀ id, s'.leases.find? id =
          (s.leases.find? id).map fun row =>
            if row.id = request.lease.leaseId then row.withDeadline request.expiresAt
            else row) := by
  obtain ⟨-, h⟩ := check_eq_ok.mp h
  obtain ⟨begun, hbegin, h⟩ := bind_eq_ok.mp h
  cases begun with
  | some stored =>
    cases h
    exact .inl ⟨rfl, .inr (beginMutation_eq_some hbegin)⟩
  | none =>
    replace h : s.renewFresh now request = .ok (outcome, s') := h
    unfold renewFresh at h
    split at h
    · obtain ⟨hout, hsame⟩ := fencedOutcome_eq_ok h
      exact .inl ⟨hsame, .inl hout⟩
    · rename_i row hload
      split at h
      · cases h
        exact .inl ⟨rfl, .inl rfl⟩
      · split at h
        · obtain ⟨hout, hsame⟩ := fencedOutcome_eq_ok h
          exact .inl ⟨hsame, .inl hout⟩
        · rename_i hreqd
          obtain ⟨hcur, -, hobserved, -⟩ := requireCurrent_eq_ok.mp hreqd
          obtain ⟨⟨outcome, s₁⟩, hdir, h⟩ := bind_eq_ok.mp h
          cases h
          have hrow := (loadLease_eq_ok hload).1
          refine .inr ⟨row.lease, hrow, hcur, hobserved, ?_⟩
          cases hstate : row.lease.state with
          | active | drainRequested =>
            rw [hstate] at hdir
            obtain ⟨s₂, hrenew, hdir⟩ := bind_eq_ok.mp hdir
            cases hdir
            obtain ⟨hother, hlses⟩ := renewDeadline_eq_ok hrenew
            have hclaims : s₁.workerClaims = s.workerClaims := by rw [hother]
            have hrecs : s₁.idempotency = s.idempotency := by rw [hother]
            refine ⟨hclaims, ?_, .inr ⟨rfl, hlses⟩⟩
            change s₁.idempotency.renewLease ++ _ = _
            rw [hrecs]
          | cancellationRequested =>
            rw [hstate] at hdir
            cases hdir
            exact ⟨rfl, rfl, .inl ⟨rfl, rfl⟩⟩
          | completed | expired =>
            rw [hstate] at hcur
            cases hcur

/-- Reconciliation changes blocked Jobs only. -/
theorem reconcileAndApply_stateOf {attemptId : AttemptId} {buildId : BuildId}
    {transitionedAt : Timestamp} {applied : AppliedOrchestration}
    (h : s.reconcileAndApply rules attemptId buildId transitionedAt = .ok (applied, s'))
    {id : JobId} {state : JobState} (hstate : s.stateOf id = some state)
    (hopen : state ≠ .blocked) : s'.stateOf id = some state := by
  obtain ⟨nodes, decision, final, s₁, -, -, hunblk, rfl, -⟩ := reconcileAndApply_eq_ok h
  obtain ⟨-, hedits, -, -⟩ := unblock_eq_ok hunblk
  have hmoved : s₁.stateOf id = some state := by
    rw [hedits.stateOf, hstate, Option.map_some, unblocked, if_neg hopen]
  exact hmoved

theorem insertRecoveredCompletion_frame {row : JobCompletionRow}
    (h : s.insertRecoveredCompletion row = .ok s') :
    s' = { s with jobCompletions := s'.jobCompletions } := by
  obtain rfl | hins := insertRecoveredCompletion_eq_ok h
  · rfl
  · exact (insertCompletion_eq_ok hins).1

/-- What settling a Lease did to a current one. -/
structure Settles (s s' : StoreState) (lease : LeaseRow) : Prop where
  current : lease.state.isCurrent = true
  claims : s'.workerClaims = s.workerClaims
  records : s'.idempotency = s.idempotency
  leases : ∀ id, s'.leases.find? id = (s.leases.find? id).map fun row =>
    if row.id = lease.id then row.withState .expired else row
  others : ∀ id state, id ≠ lease.jobId → state ≠ .blocked → s.stateOf id = some state →
    s'.stateOf id = some state

theorem settleLease_eq_ok {row : RecoveryRow} {recoveredAt : Timestamp}
    {action : LeaseRecoveryAction} {count : Nat} {leaseId : LeaseId}
    (hjoin : s.joinRecovery leaseId = some row)
    (h : s.settleLease rules row recoveredAt = .ok (action, count, s')) :
    s' = s ∨ Settles s s' row.lease := by
  obtain ⟨hlease, hpath, -⟩ := joinRecovery_eq_some hjoin
  unfold settleLease at h
  split at h
  · obtain ⟨_, -, h⟩ := bind_eq_ok.mp h
    cases h
    exact .inl rfl
  · rename_i hcur
    replace hcur : row.lease.state.isCurrent = true := by simpa using hcur
    right
    split at h
    · obtain ⟨s₁, henq, h⟩ := bind_eq_ok.mp h
      obtain ⟨_, -, h⟩ := bind_eq_ok.mp h
      cases h
      have hother := (enqueue_eq_ok (mapError_eq_ok.mp henq)).1
      have hedits : Edits (fun id state => if id = row.lease.jobId then .ready else state)
          s.jobs s'.jobs := by
        rw [hother]
        exact releaseJob_edits row.lease _
      refine ⟨hcur, by rw [hother]; rfl, by rw [hother]; rfl, fun id => ?_, ?_⟩
      · rw [hother]
        exact closeLease_find? row.lease.id .expired id
      · intro id state hid _ hstate
        rw [hedits.stateOf, hstate, Option.map_some, if_neg hid]
    · obtain ⟨s₁, hupdate, h⟩ := bind_eq_ok.mp h
      obtain ⟨⟨applied, s₂⟩, hrec, h⟩ := bind_eq_ok.mp h
      obtain ⟨_, -, h⟩ := bind_eq_ok.mp h
      obtain ⟨s₃, hins, h⟩ := bind_eq_ok.mp h
      obtain ⟨_, -, h⟩ := bind_eq_ok.mp h
      cases h
      obtain ⟨-, rfl⟩ := updateHeldJob_eq_ok hpath hupdate
      have hframe := insertRecoveredCompletion_frame hins
      rw [reconcileAndApply_frame hrec] at hframe
      refine ⟨hcur, by rw [hframe]; rfl, by rw [hframe]; rfl, fun id => ?_, ?_⟩
      · rw [hframe]
        exact closeLease_find? row.lease.id .expired id
      · intro id state hid hopen hstate
        have hkept : s₂.stateOf id = some state := by
          refine reconcileAndApply_stateOf hrec ?_ hopen
          rw [(finishJob_edits row.lease .expired _).stateOf, hstate, Option.map_some, if_neg hid]
        have hjobs : s'.jobs = s₂.jobs := by rw [insertRecoveredCompletion_frame hins]
        rw [stateOf, hjobs]
        exact hkept

/-- What a recovery did: nothing to Leases and Jobs, or it settled a claimed
    current Lease. -/
theorem recoverExpiredLease_eq_ok {request : RecoverExpiredLease}
    {outcome : RecoverExpiredLeaseOutcome}
    (h : s.recoverExpiredLease rules request = .ok (outcome, s')) :
    s'.idempotency.renewLease = s.idempotency.renewLease ∧
    (∀ claim' ∈ s'.workerClaims.rows, ∃ claim ∈ s.workerClaims.rows,
      claim'.leaseId = claim.leaseId) ∧ (s'.leases = s.leases ∧ s'.jobs = s.jobs ∨
      ∃ lease, s.workerClaims.contains lease.id = true ∧
        s.leases.find? lease.id = some lease ∧ lease.state.isCurrent = true ∧
        (∀ id, s'.leases.find? id = (s.leases.find? id).map fun row =>
          if row.id = lease.id then row.withState .expired else row) ∧
        ∀ id state, id ≠ lease.jobId → state ≠ .blocked → s.stateOf id = some state →
          s'.stateOf id = some state) := by
  obtain ⟨begun, -, h⟩ := bind_eq_ok.mp h
  cases begun with
  | some stored =>
    cases h
    exact ⟨rfl, fun claim hclaim => ⟨claim, hclaim, rfl⟩, .inl ⟨rfl, rfl⟩⟩
  | none =>
    obtain ⟨⟨outcome, s₁⟩, hfresh, h⟩ := bind_eq_ok.mp h
    cases h
    unfold recoverFresh at hfresh
    rw [guard_eq_ok] at hfresh
    obtain ⟨howned, hfresh⟩ := hfresh
    obtain ⟨row, hjoin, hfresh⟩ := bind_eq_ok.mp hfresh
    rw [guard_eq_ok] at hfresh
    obtain ⟨⟨action, count, s₂⟩, hset, hfresh⟩ := bind_eq_ok.mp hfresh.2
    cases hfresh
    replace hjoin := okOr_eq_ok.mp hjoin
    have hlease := (joinRecovery_eq_some hjoin).1
    have hid : row.lease.id = request.claim.leaseId := key_of_find? hlease
    have hclaimed : s.workerClaims.contains row.lease.id = true := by
      rw [hid, contains_eq_isSome]
      cases hfind : s.workerClaims.find? request.claim.leaseId with
      | some claim => rfl
      | none => simp [ownsClaim, hfind] at howned
    have hsame : s₂.workerClaims = s.workerClaims ∧ s₂.idempotency = s.idempotency := by
      obtain rfl | hsets := settleLease_eq_ok hjoin hset
      · exact ⟨rfl, rfl⟩
      · exact ⟨hsets.claims, hsets.records⟩
    refine ⟨?_, fun claim' hclaim' => ?_, ?_⟩
    · change s₂.idempotency.renewLease = _
      rw [hsame.2]
    · simp only [Table.updateWhere, mapRows_rows, mem_map] at hclaim'
      obtain ⟨claim, hclaim, rfl⟩ := hclaim'
      rw [hsame.1] at hclaim
      exact ⟨claim, hclaim, by split <;> rfl⟩
    · obtain rfl | hsets := settleLease_eq_ok hjoin hset
      · exact .inl ⟨rfl, rfl⟩
      · exact .inr ⟨row.lease, hclaimed, by rw [hid]; exact hlease, hsets.current,
          hsets.leases, hsets.others⟩

/-! ## Claimed Leases and reported deadlines -/

/-- What the requests so far say about the store: a claimed current Lease is past
    its deadline, and a Lease lasts as long as any heartbeat reported. -/
structure Punctual (times : List Timestamp) (beats : List RenewLease) (s : StoreState) : Prop where
  claimed : ∀ claim ∈ s.workerClaims.rows, ∃ lease, s.leases.find? claim.leaseId = some lease ∧
    (lease.state.isCurrent = true → ∃ time ∈ times, lease.expiresAt ≤ time)
  reported : ∀ record ∈ s.idempotency.renewLease, ∀ deadline,
    record.outcome.deadline = some deadline →
      (∃ beat ∈ beats, beat.lease.leaseId = record.request.lease.leaseId ∧
        beat.expiresAt = deadline) ∧
      ∃ lease, s.leases.find? record.request.lease.leaseId = some lease ∧
        deadline ≤ lease.expiresAt ∧ (lease.state = .expired → ∃ time ∈ times, deadline ≤ time)

variable {times : List Timestamp} {beats : List RenewLease}

theorem punctual_initial : Punctual times beats .initial where
  claimed _ hclaim := nomatch hclaim
  reported _ hrecd := nomatch hrecd

section

variable (h : Punctual times beats s)

include h

/-- More requests say no less. -/
theorem Punctual.mono {times' : List Timestamp} {beats' : List RenewLease}
    (htimes : times ⊆ times') (hbeats : beats ⊆ beats') : Punctual times' beats' s where
  claimed claim hclaim := by
    obtain ⟨lease, hlease, hpast⟩ := h.claimed claim hclaim
    refine ⟨lease, hlease, fun hcur => ?_⟩
    obtain ⟨time, htime, hle⟩ := hpast hcur
    exact ⟨time, htimes htime, hle⟩
  reported record hrecd deadline hdead := by
    obtain ⟨⟨beat, hbeat, hbeats'⟩, lease, hlease, hle, hexpd⟩ :=
      h.reported record hrecd deadline hdead
    refine ⟨⟨beat, hbeats hbeat, hbeats'⟩, lease, hlease, hle, fun hstate => ?_⟩
    obtain ⟨time, htime, hpast⟩ := hexpd hstate
    exact ⟨time, htimes htime, hpast⟩

/-- Steps that claim nothing, report nothing and expire only what is past its
    deadline. -/
theorem Punctual.transfer
    (hclaims : ∀ claim' ∈ s'.workerClaims.rows, ∃ claim ∈ s.workerClaims.rows,
      claim'.leaseId = claim.leaseId)
    (hrecs : s'.idempotency.renewLease = s.idempotency.renewLease)
    (hlses : ∀ id lease, s.leases.find? id = some lease →
      ∃ lease', s'.leases.find? id = some lease' ∧ lease'.expiresAt = lease.expiresAt ∧
        (lease'.state.isCurrent = true → lease.state.isCurrent = true) ∧ (lease'.state = .expired →
          lease.state = .expired ∨ ∃ time ∈ times, lease.expiresAt ≤ time)) :
    Punctual times beats s' where
  claimed claim' hclaim' := by
    obtain ⟨claim, hclaim, hsame⟩ := hclaims claim' hclaim'
    obtain ⟨lease, hlease, hpast⟩ := h.claimed claim hclaim
    obtain ⟨lease', hlease', hexps, hcur, -⟩ := hlses _ lease hlease
    rw [hsame]
    refine ⟨lease', hlease', fun hstate => ?_⟩
    rw [hexps]
    exact hpast (hcur hstate)
  reported record hrecd deadline hdead := by
    rw [hrecs] at hrecd
    obtain ⟨hbeat, lease, hlease, hle, hexpd⟩ := h.reported record hrecd deadline hdead
    obtain ⟨lease', hlease', hexps, -, hstate⟩ := hlses _ lease hlease
    refine ⟨hbeat, lease', hlease', by rw [hexps]; exact hle, fun hstate' => ?_⟩
    obtain hbef | ⟨time, htime, hpast⟩ := hstate hstate'
    · exact hexpd hbef
    · exact ⟨time, htime, hle.trans hpast⟩

theorem Punctual.untimed (hwrite : WriteIn rules false grants s s') : Punctual times beats s' := by
  obtain ⟨hclaims, hrecs⟩ := hwrite.untimed
  refine h.transfer (fun claim hclaim => ⟨claim, by rw [← hclaims]; exact hclaim, rfl⟩) hrecs
    fun id lease hlease => ?_
  obtain ⟨lease', hlease', hmove⟩ := hwrite.leaseMoves.grows id lease hlease
  refine ⟨lease', hlease', ?_⟩
  cases hmove with
  | stay => exact ⟨rfl, fun hstate => hstate, .inl⟩
  | directed state hcur hstate =>
    refine ⟨rfl, fun _ => hcur, fun hexpd => ?_⟩
    obtain rfl | rfl := hstate <;> cases hexpd
  | finished state hcur hended huntim hjob =>
    exact ⟨rfl, fun _ => hcur, fun hexpd => absurd hexpd (huntim rfl)⟩
  | renewed expiresAt htimed => cases htimed
  | requeued htimed => cases htimed

/-- A heartbeat renews a Lease that no worker has claimed. -/
theorem Punctual.renew (htimes : ∀ time ∈ times, time ≤ request.observedAt)
    (hbeats : ∀ beat ∈ beats, beat.lease.leaseId = request.lease.leaseId →
      beat.expiresAt ≤ request.expiresAt) (hrenew : s.renewLease now request = .ok (outcome, s')) :
    Punctual times (beats ++ [request]) s' := by
  have hmono : Punctual times (beats ++ [request]) s :=
    h.mono (List.Subset.refl _) (subset_append_left _ _)
  obtain ⟨rfl, -⟩ | ⟨lease, hlease, hcur, hobserved, hclaims, hrecs, hreport⟩ :=
    renewLease_eq_ok hrenew
  · exact hmono
  have hid : lease.id = request.lease.leaseId := key_of_find? hlease
  -- how the one Lease of the request and every other Lease is found afterwards
  have hfind : ∀ id row, s.leases.find? id = some row → ∃ row', s'.leases.find? id = some row' ∧
      row'.state = row.state ∧ (id ≠ request.lease.leaseId → row' = row) ∧
      (row'.expiresAt = row.expiresAt ∨
        id = request.lease.leaseId ∧ row'.expiresAt = request.expiresAt) := by
    intro id row hrow
    obtain ⟨-, hsame⟩ | ⟨-, hlses⟩ := hreport
    · exact ⟨row, by rw [hsame]; exact hrow, rfl, fun _ => rfl, .inl rfl⟩
    · by_cases hrowId : row.id = request.lease.leaseId
      · have hkey : id = request.lease.leaseId := (key_of_find? hrow).symm.trans hrowId
        refine ⟨row.withDeadline request.expiresAt, ?_, rfl, fun hne => absurd hkey hne,
          .inr ⟨hkey, rfl⟩⟩
        rw [hlses, hrow, Option.map_some, if_pos hrowId]
      · refine ⟨row, ?_, rfl, fun _ => rfl, .inl rfl⟩
        rw [hlses, hrow, Option.map_some, if_neg hrowId]
  constructor
  · intro claim hclaim
    rw [hclaims] at hclaim
    obtain ⟨found, hfound, hpast⟩ := h.claimed claim hclaim
    -- a claimed current Lease is past its deadline, so this one was not claimed
    have hne : claim.leaseId ≠ request.lease.leaseId := by
      intro hsame
      rw [hsame, hlease] at hfound
      cases hfound
      obtain ⟨time, htime, hle⟩ := hpast hcur
      exact absurd (hle.trans (htimes time htime)) (not_le.mpr hobserved)
    obtain ⟨row', hrow', -, hsame, -⟩ := hfind _ found hfound
    rw [hsame hne] at hrow'
    exact ⟨found, hrow', hpast⟩
  · intro record hrecd deadline hdead
    rw [hrecs, mem_append, mem_singleton] at hrecd
    obtain hrecd | rfl := hrecd
    · obtain ⟨⟨beat, hbeat, hbeatId, hbeatExpires⟩, found, hfound, hle, hexpd⟩ :=
        h.reported record hrecd deadline hdead
      obtain ⟨row', hrow', hstate, -, hexps⟩ := hfind _ found hfound
      refine ⟨⟨beat, mem_append_left _ hbeat, hbeatId, hbeatExpires⟩, row', hrow', ?_, ?_⟩
      · obtain hexps | ⟨hsame, hexps⟩ := hexps
        · rw [hexps]
          exact hle
        · rw [hexps, ← hbeatExpires]
          exact hbeats beat hbeat (hbeatId.trans hsame)
      · rw [hstate]
        exact hexpd
    · obtain ⟨hnone, -⟩ | ⟨hsome, hlses⟩ := hreport
      · rw [hdead] at hnone
        cases hnone
      · rw [hdead] at hsome
        cases hsome
        refine ⟨⟨request, mem_append_right _ (mem_singleton_self _), rfl, rfl⟩,
          lease.withDeadline request.expiresAt, ?_, le_refl _, fun hexpd => ?_⟩
        · change s'.leases.find? request.lease.leaseId = _
          rw [hlses, hlease, Option.map_some, if_pos hid]
        · replace hexpd : lease.state = .expired := hexpd
          rw [hexpd] at hcur
          cases hcur

end

theorem mem_putClaims {request : ClaimExpiredLeases} {claim : WorkerClaimRow} :
    ∀ (candidates : List LeaseRow) (claims : Table WorkerClaimRow.leaseId),
      claim ∈ (candidates.foldl (fun claims lease => claims.put (request.claim lease.id))
        claims).rows → claim ∈ claims.rows ∨ ∃ lease ∈ candidates, claim.leaseId = lease.id
  | [], claims, h => .inl h
  | lease :: rest, claims, h => by
    obtain h | ⟨other, hother, hsame⟩ := mem_putClaims rest _ h
    · obtain rfl | h := mem_put.mp h
      · exact .inr ⟨lease, mem_cons_self .., rfl⟩
      · exact .inl h.1
    · exact .inr ⟨other, mem_cons_of_mem _ hother, hsame⟩

/-- A worker claims Leases that are past their deadline when it looks. -/
theorem Punctual.claimExpired (h : Punctual times beats s) (busy : LeaseId → Bool)
    (request : ClaimExpiredLeases) :
    Punctual (times ++ [request.observedAt]) beats (s.claimExpiredLeases busy request).2 := by
  have hmono : Punctual (times ++ [request.observedAt]) beats s :=
    h.mono (subset_append_left _ _) (List.Subset.refl _)
  refine ⟨fun claim hclaim => ?_, hmono.reported⟩
  obtain hold | ⟨lease, hlease, hsame⟩ := mem_putClaims _ _ hclaim
  · exact hmono.claimed claim hold
  · have hmem := mem_of_mem_take hlease
    rw [mem_mergeSort, mem_filter] at hmem
    obtain ⟨hrow, hcand⟩ := hmem
    have hpast := (of_decide_eq_true (of_decide_eq_true hcand).1).2.1
    refine ⟨lease, by rw [hsame]; exact Table.find?_of_mem _ hrow, fun _ => ?_⟩
    exact ⟨request.observedAt, mem_append_right _ (mem_singleton_self _), hpast⟩

/-- A recovery expires a claimed Lease, which is past its deadline. -/
theorem Punctual.recover (h : Punctual times beats s) {request : RecoverExpiredLease}
    {outcome : RecoverExpiredLeaseOutcome}
    (hrecover : s.recoverExpiredLease rules request = .ok (outcome, s')) :
    Punctual times beats s' := by
  obtain ⟨hrecs, hclaims, ⟨hsame, -⟩ | ⟨lease, hclaimed, hlease, hcur, hlses, -⟩⟩ :=
    recoverExpiredLease_eq_ok hrecover
  · exact h.transfer hclaims hrecs fun id row hrow =>
      ⟨row, by rw [hsame]; exact hrow, rfl, fun hstate => hstate, .inl⟩
  · obtain ⟨claim, hclaim, hclaimId⟩ := (contains_iff _ _).mp hclaimed
    obtain ⟨found, hfound, hpast⟩ := h.claimed claim hclaim
    rw [hclaimId, hlease] at hfound
    cases hfound
    refine h.transfer hclaims hrecs fun id row hrow => ?_
    by_cases hid : row.id = lease.id
    · have hsame := lease_eq_of_find? hlease hrow hid
      subst hsame
      refine ⟨row.withState .expired, ?_, rfl, fun _ => hcur, fun _ => .inr (hpast hcur)⟩
      rw [hlses, hrow, Option.map_some, if_pos rfl]
    · refine ⟨row, ?_, rfl, fun hstate => hstate, .inl⟩
      rw [hlses, hrow, Option.map_some, if_neg hid]

/-- One transaction of an ordered run. -/
theorem Punctual.step (h : Punctual times beats s) (transaction : Transaction)
    (htimes : ∀ now, transaction.requestedAt = some now → ∀ time ∈ times, time ≤ now)
    (hbeats : ∀ request, transaction.heartbeat = some request → ∀ beat ∈ beats,
      beat.lease.leaseId = request.lease.leaseId → beat.expiresAt ≤ request.expiresAt) :
    Punctual (times ++ transaction.requestedAt.toList) (beats ++ transaction.heartbeat.toList)
      (s.step rules transaction) := by
  have hmono := h.mono (subset_append_left times transaction.requestedAt.toList)
    (subset_append_left beats transaction.heartbeat.toList)
  unfold StoreState.step
  cases hexec : s.execute rules transaction with
  | error error => exact hmono
  | ok s' =>
    by_cases htimed : transaction.isTimed = true
    · cases transaction with
      | renew now request =>
        obtain ⟨outcome, hrenew⟩ := map_snd_eq_ok hexec
        exact (h.renew (htimes _ rfl) (hbeats _ rfl) hrenew).mono
          (subset_append_left _ _) (List.Subset.refl _)
      | claimExpired busy request =>
        cases hexec
        exact (h.claimExpired busy request).mono (List.Subset.refl _)
          (subset_append_left _ _)
      | recover request =>
        obtain ⟨outcome, hrecover⟩ := map_snd_eq_ok hexec
        exact (h.recover hrecover).mono (subset_append_left _ _)
          (subset_append_left _ _)
      | materialize | retry | claim | append | complete | failAssignment | cancel | drainAgent
      | publishPool | administer | hideLogs => cases htimed
    · have hwrites : WritesIn rules false true s s' :=
        execute_writes (fun h => absurd h htimed) (fun _ => rfl) hexec
      clear hexec
      induction hwrites with
      | refl => exact hmono
      | tail _ hwrite ih => exact ih.untimed hwrite

theorem requestTimes_append (transactions : List Transaction) (transaction : Transaction) :
    requestTimes (transactions ++ [transaction]) =
      requestTimes transactions ++ transaction.requestedAt.toList := by
  rw [requestTimes, filterMap_append]
  cases h : transaction.requestedAt <;> simp [requestTimes, h]

theorem heartbeats_append (transactions : List Transaction) (transaction : Transaction) :
    heartbeats (transactions ++ [transaction]) =
      heartbeats transactions ++ transaction.heartbeat.toList := by
  rw [heartbeats, filterMap_append]
  cases h : transaction.heartbeat <;> simp [heartbeats, h]

theorem run_punctual (rules : CoreRules) {transactions : List Transaction}
    (hord : Ordered transactions) (hsteady : Steady transactions) :
    Punctual (requestTimes transactions) (heartbeats transactions)
      (run rules .initial transactions) := by
  induction transactions using List.reverseRecOn with
  | nil => exact punctual_initial
  | append_singleton transactions transaction ih =>
    rw [Ordered, requestTimes_append, pairwise_append] at hord
    rw [Steady, heartbeats_append, pairwise_append] at hsteady
    rw [requestTimes_append, heartbeats_append, run, foldl_append]
    refine (ih hord.1 hsteady.1).step transaction (fun now hnow time htime => ?_)
      fun request hreq beat hbeat => ?_
    · exact hord.2.2 time htime now (by rw [hnow]; exact mem_singleton_self _)
    · exact hsteady.2.2 beat hbeat request (by rw [hreq]; exact mem_singleton_self _)

/-! ## A reported deadline is kept -/

/-- A heartbeat that reported a deadline has recorded it, now or before. -/
theorem renewLease_recorded {deadline : Timestamp}
    (h : s.renewLease now request = .ok (outcome, s'))
    (hdead : outcome.deadline = some deadline) : ∃ record ∈ s'.idempotency.renewLease,
      record.request.lease.leaseId = request.lease.leaseId ∧ record.outcome = outcome := by
  obtain ⟨rfl, rfl | hstor⟩ | ⟨lease, -, -, -, -, hrecs, -⟩ := renewLease_eq_ok h
  · cases hdead
  · exact ⟨_, hstor, rfl, rfl⟩
  · rw [hrecs]
    exact ⟨_, mem_append_right _ (mem_singleton_self _), rfl, rfl⟩

/-- Before its reported deadline a Lease is not expired, and no recovery touches
    its row or the state of its Job. -/
theorem recover_keeps {transactions : List Transaction} (hord : Ordered transactions)
    (hsteady : Steady transactions) {earlier later : List Transaction}
    (hrun : transactions = earlier ++ .renew now request :: later)
    (hrenew : (run rules .initial earlier).renewLease now request = .ok (outcome, s))
    {deadline : Timestamp} (hdead : outcome.deadline = some deadline)
    {recovery : RecoverExpiredLease}
    (hlast : ∀ time ∈ requestTimes transactions, time ≤ recovery.recoveredAt)
    (hearly : recovery.recoveredAt < deadline) : ∃ lease,
      (run rules .initial transactions).leases.find? request.lease.leaseId = some lease ∧
      lease.state ≠ .expired ∧
      ((run rules .initial transactions).step rules (.recover recovery)).leases.find?
        request.lease.leaseId = some lease ∧
      ((run rules .initial transactions).step rules (.recover recovery)).stateOf lease.jobId =
        (run rules .initial transactions).stateOf lease.jobId := by
  have hpunctual := run_punctual rules hord hsteady
  have hreach : Reachable rules (run rules .initial transactions) := ⟨transactions, rfl⟩
  obtain ⟨record, hrecd, hrecordId, hrecordOutcome⟩ := renewLease_recorded hrenew hdead
  have hkept : record ∈ (run rules .initial transactions).idempotency.renewLease := by
    have hstep : (run rules .initial earlier).step rules (.renew now request) = s := by
      rw [StoreState.step, execute, hrenew]
      rfl
    have hlater : run rules .initial transactions = run rules s later := by
      rw [hrun, run, foldl_append, foldl_cons]
      change run rules ((run rules .initial earlier).step rules (.renew now request)) later = _
      rw [hstep]
    rw [hlater]
    exact writes_keep (P := fun s => record ∈ s.idempotency.renewLease)
      (fun _ _ hs hwrite => hwrite.evolution.records.renewLease.subset hs)
      (run_writes rules s later) hrecd
  obtain ⟨-, lease, hlease, hdue, hexpd⟩ :=
    hpunctual.reported record hkept deadline (by rw [hrecordOutcome, hdead])
  rw [hrecordId] at hlease
  have hlive : lease.state ≠ .expired := by
    intro hstate
    obtain ⟨time, htime, hpast⟩ := hexpd hstate
    exact absurd (hpast.trans (hlast time htime)) (not_le.mpr hearly)
  refine ⟨lease, hlease, hlive, ?_⟩
  generalize hs : run rules .initial transactions = s₁ at *
  unfold StoreState.step
  cases hexec : s₁.execute rules (.recover recovery) with
  | error error => exact ⟨hlease, rfl⟩
  | ok s₂ =>
    obtain ⟨result, hrecover⟩ := map_snd_eq_ok hexec
    obtain ⟨-, -, ⟨hlses, hjobs⟩ | ⟨other, hclaimed, hother, hcur, hlses, hstates⟩⟩ :=
      recoverExpiredLease_eq_ok hrecover
    · exact ⟨by rw [hlses]; exact hlease, by rw [stateOf, stateOf, hjobs]⟩
    · obtain ⟨claim, hclaim, hclaimId⟩ := (contains_iff _ _).mp hclaimed
      obtain ⟨found, hfound, hpast⟩ := hpunctual.claimed claim hclaim
      rw [hclaimId, hother] at hfound
      cases hfound
      -- the recovered Lease is past its deadline, so it is another one
      have hne : lease.id ≠ other.id := by
        intro hsame
        have heq := lease_eq_of_find? hother hlease hsame
        obtain ⟨time, htime, hle⟩ := hpast hcur
        rw [heq] at hdue
        exact absurd (hdue.trans (hle.trans (hlast time htime))) (not_le.mpr hearly)
      refine ⟨by rw [hlses, hlease, Option.map_some, if_neg hne], ?_⟩
      obtain ⟨job, hjob⟩ := hreach.linked.job _ lease hlease
      have hstate : s₁.stateOf lease.jobId = some job.state := stateOf_eq_some.mpr ⟨job, hjob, rfl⟩
      rw [hstate]
      have hjobMem := mem_of_find? hjob
      have hjobId : job.id = lease.jobId := key_of_find? hjob
      have hconsi := hreach.consistent
      have hotherMem : other ∈ s₁.currentLeases :=
        mem_currentLeases.mpr ⟨mem_of_find? hother, hcur⟩
      cases hleaseState : lease.state with
      | active | cancellationRequested | drainRequested =>
        have hleaseMem : lease ∈ s₁.currentLeases :=
          mem_currentLeases.mpr ⟨mem_of_find? hlease, by rw [hleaseState]; rfl⟩
        have hheld : isHeld job.state = true := by
          by_contra hfree
          exact hconsi.free job hjobMem (Bool.of_not_eq_true hfree) lease hleaseMem hjobId.symm
        refine hstates _ _ (fun hsame => hne ?_) (fun hblk => ?_) hstate
        · obtain ⟨held, -, huniq⟩ := hconsi.held job hjobMem hheld
          rw [huniq lease ⟨hleaseMem, hjobId.symm⟩,
            huniq other ⟨hotherMem, hsame.symm.trans hjobId.symm⟩]
        · rw [hblk] at hheld
          cases hheld
      | completed =>
        obtain ⟨state, hended, hterm⟩ := hreach.lease_completed hlease hleaseState
        rw [hstate] at hended
        cases hended
        have hwrites : Writes rules s₁ s₂ := execute_writes (fun _ => rfl) (fun _ => rfl) hexec
        exact hwrites.stateOf_terminal hstate hterm
      | expired => exact absurd hleaseState hlive

/-! ## A Lease that is not current any more -/

/-- A holder was answered with something stored, or refused; nothing was written. -/
def Refused {α : Type} (s : StoreState) (stored : α → Prop) :
    Except StoreError (α × StoreState) → Prop
  | .ok (outcome, s') => s' = s ∧ stored outcome
  | .error error => error.refusesHolder = true

variable {α β : Type} {stored : α → Prop}

theorem refused_bind {x : Except StoreError β} {f : β → Except StoreError (α × StoreState)}
    (hx : ∀ error, x = .error error → error.refusesHolder = true)
    (hf : ∀ b, x = .ok b → Refused s stored (f b)) : Refused s stored (x >>= f) := by
  cases x with
  | error error => exact hx error rfl
  | ok b => exact hf b rfl

theorem number_refuses {value : Nat} {operation : StoreOperation}
    (h : number value operation = .error error) : error.refusesHolder = true := by
  unfold number at h
  split at h <;> cases h
  rfl

theorem beginMutation_refuses {Key Request Outcome : Type} [DecidableEq Key] [DecidableEq Request]
    {records : IdempotencyRecords Key Request Outcome} {key : Key} {request : Request}
    {entity : StoreEntity}
    (h : beginMutation records key request entity = .error error) : error.refusesHolder = true := by
  rw [beginMutation_eq_error h]
  rfl

theorem loadLease_refuses {access : LeaseAccess} {operation : StoreOperation}
    (h : s.loadLease now access operation = .error error) : error.refusesHolder = true := by
  unfold loadLease at h
  cases hepoch : number access.registrationEpoch operation with
  | error failed =>
    rw [hepoch] at h
    cases h
    exact number_refuses hepoch
  | ok epoch =>
    rw [hepoch] at h
    cases hjoin : s.joinLease now access.leaseId with
    | none =>
      rw [hjoin] at h
      cases h
      rfl
    | some row =>
      rw [hjoin] at h
      change (if _ then _ else _) = _ at h
      split at h <;> cases h
      rfl

/-- The check of a Lease that is not current any more fails. -/
theorem requireCurrent_refuses {row : LoadedLease} (access : LeaseAccess) (observedAt : Timestamp)
    (hended : row.lease.state.isCurrent = false) :
    ∃ error, requireCurrent row access observedAt = .error error ∧ error.refusesHolder = true := by
  unfold requireCurrent
  split
  · exact ⟨_, rfl, rfl⟩
  · split
    · exact ⟨_, rfl, rfl⟩
    · rw [hended]
      exact ⟨_, rfl, rfl⟩

theorem fencedOutcome_refused {stored : LeaseHeartbeatOutcome → Prop}
    (hfenced : stored .fenced) (h : error.refusesHolder = true) :
    Refused s stored (s.fencedOutcome error) := by
  cases error <;> first | exact ⟨rfl, hfenced⟩ | exact h

section Ended

variable {leaseId : LeaseId} {lease : LeaseRow}

section

variable (hlease : s.leases.find? leaseId = some lease) (hended : lease.state.isCurrent = false)

include hlease hended

theorem renewLease_refused (now : Timestamp) (hid : request.lease.leaseId = leaseId) :
    Refused s (fun outcome => outcome = .fenced ∨
      ⟨request.idempotencyKey, request.fingerprint, outcome⟩ ∈ s.idempotency.renewLease)
      (s.renewLease now request) := by
  unfold renewLease
  refine refused_bind (fun error h => ?_) fun _ _ => ?_
  · unfold RenewLease.validate at h
    split at h <;> cases h
    rfl
  refine refused_bind (fun error => beginMutation_refuses) fun begun hbegin => ?_
  cases begun with
  | some outcome => exact ⟨rfl, .inr (beginMutation_eq_some hbegin)⟩
  | none =>
    change Refused s _ (s.renewFresh now request)
    unfold renewFresh
    cases hload : s.loadLease now request.lease .renewLease with
    | error error => exact fencedOutcome_refused (.inl rfl) (loadLease_refuses hload)
    | ok row =>
      have hrow := (loadLease_eq_ok hload).1
      rw [hid, hlease] at hrow
      cases hrow
      obtain ⟨error, hreqd, hrefuses⟩ :=
        requireCurrent_refuses request.lease request.observedAt hended
      simp only
      split
      · exact ⟨rfl, .inl rfl⟩
      · rw [hreqd]
        exact fencedOutcome_refused (.inl rfl) hrefuses

theorem appendJobEvents_refused (now : Timestamp) {request : AppendJobEvents}
    (hid : request.lease.leaseId = leaseId) : Refused s (fun outcome =>
      ⟨request.key, request.fingerprint, outcome⟩ ∈ s.idempotency.appendJobEvents)
      (s.appendJobEvents rules now request) := by
  unfold appendJobEvents
  refine refused_bind (fun error h => ?_) fun _ _ => ?_
  · unfold AppendJobEvents.validate at h
    dsimp only at h
    repeat' split at h
    all_goals cases h
    all_goals rfl
  refine refused_bind (fun error => beginMutation_refuses) fun begun hbegin => ?_
  cases begun with
  | some outcome => exact ⟨rfl, beginMutation_eq_some hbegin⟩
  | none =>
    refine refused_bind (fun error => loadLease_refuses) fun row hload => ?_
    have hrow := (loadLease_eq_ok hload).1
    rw [hid, hlease] at hrow
    cases hrow
    obtain ⟨error, hreqd, hrefuses⟩ :=
      requireCurrent_refuses request.lease request.acceptedAt hended
    exact refused_bind (fun error' h => by
      rw [hreqd] at h
      cases h
      exact hrefuses) fun _ h => by
        rw [hreqd] at h
        cases h

end

/-- The texts of a stored completion are those of a failure class. -/
theorem replayCompletion_isOk {existing : JobCompletionRow} (hwell : existing.wellFormed = true) :
    ∃ outcome, s.replayCompletion existing = .ok outcome := by
  have hparse : ∃ failure, parseFailureClass existing.failureClass = .ok failure := by
    have hclass := (of_decide_eq_true hwell).2
    split at hclass
    · obtain hclass | hclass := hclass <;> rw [hclass] <;> exact ⟨_, rfl⟩
    · rw [hclass]
      exact ⟨_, rfl⟩
  obtain ⟨failure, hparse⟩ := hparse
  exact ⟨_, bind_eq_ok.mpr ⟨failure, hparse, rfl⟩⟩

theorem Reachable.completion_wellFormed (h : Reachable rules s) {jobId : JobId}
    {row : JobCompletionRow} (hrow : s.jobCompletions.find? jobId = some row) :
    row.wellFormed = true := by
  refine h.induction (P := fun s => ∀ id row, s.jobCompletions.find? id = some row →
    row.wellFormed = true) (fun id row hrow => nomatch hrow) ?_ jobId row hrow
  intro s s' hs hwrite id row hrow
  obtain ⟨before, hbef, rfl⟩ | ⟨-, -, hwell, -⟩ :=
    hwrite.evolution.completions.origin id row hrow
  · exact hs id before hbef
  · exact hwell

/-- The outcomes a repeated completion is answered with: the recorded one of the
    same origin, or the stored completion of its Job. -/
def StoredCompletion (s : StoreState) (origin : CompletionOrigin) (request : JobCompletion)
    (outcome : CompletionDisposition) : Prop :=
  (∃ recorded, ⟨request.completionId, request.fingerprint, recorded⟩ ∈ s.completionRecords origin ∧
    outcome = { recorded with disposition := .replayed }) ∨
  ∃ existing ∈ s.jobCompletions.rows, existing.isFor request = true ∧
    s.replayCompletion existing = .ok outcome

section

variable (h : Reachable rules s) (hlease : s.leases.find? leaseId = some lease)
  (hended : lease.state.isCurrent = false)

include h hlease hended

theorem Reachable.completeWithOrigin_refused (now : Timestamp) {request : JobCompletion}
    (hid : request.lease.leaseId = leaseId) (origin : CompletionOrigin) :
    Refused s (s.StoredCompletion origin request)
      (s.completeWithOrigin rules now request origin) := by
  unfold completeWithOrigin
  refine refused_bind (fun error => beginMutation_refuses) fun begun hbegin => ?_
  cases begun with
  | some outcome => exact ⟨rfl, .inl ⟨outcome, beginMutation_eq_some hbegin, rfl⟩⟩
  | none =>
    change Refused s _ (s.completeFresh rules now request origin)
    unfold completeFresh
    refine refused_bind (fun error hgraph => ?_) fun _ _ => ?_
    · cases hlocate : s.locateGraph request.lease.leaseId with
      | none =>
        rw [hlocate] at hgraph
        cases hgraph
        rfl
      | some graph =>
        rw [hlocate] at hgraph
        cases hgraph
    refine refused_bind (fun error => loadLease_refuses) fun row hload => ?_
    have hrow := (loadLease_eq_ok hload).1
    rw [hid, hlease] at hrow
    cases hrow
    refine refused_bind (fun error hevid => ?_) fun _ _ => ?_
    · unfold requireValidExecutionEvidence at hevid
      split at hevid <;> cases hevid
      rfl
    refine refused_bind (fun error => number_refuses) fun finalSequence _ => ?_
    split
    · rename_i existing hexisting
      split
      · rename_i hsame
        obtain ⟨outcome, hreplay⟩ :=
          replayCompletion_isOk (s := s) (h.completion_wellFormed hexisting)
        rw [hreplay]
        exact ⟨rfl, .inr ⟨existing, mem_of_find? hexisting, hsame, hreplay⟩⟩
      · rfl
    · obtain ⟨error, hreqd, hrefuses⟩ :=
        requireCurrent_refuses request.lease request.completedAt hended
      rw [hreqd]
      exact hrefuses

theorem Reachable.failAssignment_refused (now : Timestamp) {request : JobCompletion}
    (hid : request.lease.leaseId = leaseId) :
    Refused s (s.StoredCompletion .assignmentDelivery request)
      (s.failAssignment rules now request) := by
  unfold failAssignment
  refine refused_bind (fun error hshape => ?_) fun _ _ =>
    h.completeWithOrigin_refused hlease hended now hid _
  unfold JobCompletion.validateAssignmentFailure at hshape
  split at hshape <;> cases hshape
  rfl

end

end Ended

/-- The answers to the holder of a Lease: what is stored for the identical
    request, or a refusal. -/
structure RefusesHolder (rules : CoreRules) (s : StoreState) (leaseId : LeaseId) : Prop where
  renew : ∀ now (request : RenewLease), request.lease.leaseId = leaseId →
    Refused s (fun outcome => outcome = .fenced ∨
      ⟨request.idempotencyKey, request.fingerprint, outcome⟩ ∈ s.idempotency.renewLease)
      (s.renewLease now request)
  append : ∀ now (request : AppendJobEvents), request.lease.leaseId = leaseId →
    Refused s (fun outcome =>
      ⟨request.key, request.fingerprint, outcome⟩ ∈ s.idempotency.appendJobEvents)
      (s.appendJobEvents rules now request)
  complete : ∀ now (request : JobCompletion), request.lease.leaseId = leaseId →
    Refused s (s.StoredCompletion .agent request) (s.completeJob rules now request)
  failAssignment : ∀ now (request : JobCompletion), request.lease.leaseId = leaseId →
    Refused s (s.StoredCompletion .assignmentDelivery request)
      (s.failAssignment rules now request)

theorem Reachable.refusesHolder (h : Reachable rules s) {leaseId : LeaseId} {lease : LeaseRow}
    (hlease : s.leases.find? leaseId = some lease) (hended : lease.state.isCurrent = false) :
    RefusesHolder rules s leaseId where
  renew now _ hid := renewLease_refused hlease hended now hid
  append now _ hid := appendJobEvents_refused hlease hended now hid
  complete now _ hid := h.completeWithOrigin_refused hlease hended now hid .agent
  failAssignment now _ hid := h.failAssignment_refused hlease hended now hid

/-- In a run with ordered requests and steady heartbeats no recovery touches a
    Lease or its Job before a deadline a heartbeat reported, and a Lease that is
    not current any more writes nothing for its holder. -/
theorem run_lease_exclusive (rules : CoreRules) {transactions : List Transaction}
    (hord : Ordered transactions) (hsteady : Steady transactions) :
    (∀ earlier now request later outcome s deadline (recovery : RecoverExpiredLease),
      transactions = earlier ++ .renew now request :: later →
      (run rules .initial earlier).renewLease now request = .ok (outcome, s) →
      outcome.deadline = some deadline →
      (∀ time ∈ requestTimes transactions, time ≤ recovery.recoveredAt) →
      recovery.recoveredAt < deadline → ∃ lease,
        (run rules .initial transactions).leases.find? request.lease.leaseId = some lease ∧
        lease.state ≠ .expired ∧
        ((run rules .initial transactions).step rules (.recover recovery)).leases.find?
          request.lease.leaseId = some lease ∧
        ((run rules .initial transactions).step rules (.recover recovery)).stateOf lease.jobId =
          (run rules .initial transactions).stateOf lease.jobId) ∧
    ∀ lease ∈ (run rules .initial transactions).leases.rows, lease.state.isCurrent = false →
      RefusesHolder rules (run rules .initial transactions) lease.id := by
  refine ⟨?_, fun lease hlease hended => ?_⟩
  · intro earlier now request later outcome s deadline recovery hrun hrenew hdead hlast hearly
    exact recover_keeps hord hsteady hrun hrenew hdead hlast hearly
  · exact Reachable.refusesHolder ⟨transactions, rfl⟩ (Table.find?_of_mem _ hlease) hended

namespace Sample

def heartbeat (key : String) (observedAt expiresAt : Nat) : RenewLease where
  idempotencyKey := key
  lease := holder
  jobId := ⟨1⟩
  attempt := 1
  observedAt := instant observedAt
  expiresAt := instant expiresAt

def expiryPass (observedAt : Nat) : ClaimExpiredLeases :=
  ⟨"worker", instant observedAt, instant 100, 1⟩

def recovery (recoveredAt : Nat) : RecoverExpiredLease :=
  ⟨⟨⟨1⟩, ⟨1⟩, "worker", instant 100⟩, instant recoveredAt⟩

/-- A heartbeat and a pass of the worker before the reported deadline. -/
def renewedRun : List Transaction :=
  claimedRun ++ [.renew (instant 5) (heartbeat "first" 5 20),
    .claimExpired (fun _ => false) (expiryPass 15)]

theorem renewed_lease_kept : ∃ lease,
    (run acceptAll .initial renewedRun).leases.find? ⟨1⟩ = some lease ∧ lease.state ≠ .expired ∧
    ((run acceptAll .initial renewedRun).step acceptAll (.recover (recovery 16))).leases.find? ⟨1⟩ =
      some lease ∧
    ((run acceptAll .initial renewedRun).step acceptAll (.recover (recovery 16))).stateOf
      lease.jobId = (run acceptAll .initial renewedRun).stateOf lease.jobId := by
  have hord : Ordered renewedRun := by
    unfold Ordered
    decide
  have hsteady : Steady renewedRun := by
    unfold Steady
    decide
  have hrenew : ∃ outcome s, (run acceptAll .initial claimedRun).renewLease (instant 5)
      (heartbeat "first" 5 20) = .ok (outcome, s) ∧ outcome.deadline = some (instant 20) := by
    have hout : ((run acceptAll .initial claimedRun).renewLease (instant 5)
        (heartbeat "first" 5 20)).toOption.map (·.1) = some (.continue (instant 20)) := by
      decide +kernel
    cases hres : (run acceptAll .initial claimedRun).renewLease (instant 5)
        (heartbeat "first" 5 20) with
    | error error =>
      rw [hres] at hout
      cases hout
    | ok result =>
      rw [hres] at hout
      have hcontinue : result.1 = .continue (instant 20) := Option.some.inj hout
      exact ⟨result.1, result.2, rfl, by rw [hcontinue]; rfl⟩
  obtain ⟨outcome, s, hrenew, hdead⟩ := hrenew
  exact (run_lease_exclusive acceptAll hord hsteady).1 claimedRun _ _ _ outcome s _
    (recovery 16) rfl hrenew hdead (by decide) (by decide)

/-- A second heartbeat that asks for an earlier deadline gives the Lease away. -/
def shortenedRun : List Transaction :=
  claimedRun ++ [.renew (instant 2) (heartbeat "first" 2 20),
    .renew (instant 3) (heartbeat "second" 3 12), .claimExpired (fun _ => false) (expiryPass 12)]

/-- The Lease is expired before the first deadline, and a malformed append to the
    expired Lease is answered with neither of the three refusals. -/
theorem shortened_lease_expired :
    Ordered (shortenedRun ++ [.recover (recovery 13)]) ∧
    ((run acceptAll .initial claimedRun).renewLease (instant 2)
      (heartbeat "first" 2 20)).toOption.map (·.1) = some (.continue (instant 20)) ∧
    (recovery 13).recoveredAt < instant 20 ∧
    ((run acceptAll .initial shortenedRun).leases.find? ⟨1⟩).map (·.state) = some .active ∧
    ((run acceptAll .initial (shortenedRun ++ [.recover (recovery 13)])).leases.find? ⟨1⟩).map
      (·.state) = some .expired ∧
    (run acceptAll .initial (shortenedRun ++ [.recover (recovery 13)])).stateOf ⟨1⟩ = some .ready ∧
    errorOf ((run acceptAll .initial (shortenedRun ++ [.recover (recovery 13)])).appendJobEvents
      acceptAll (instant 14) ⟨holder, [], [], instant 14⟩) =
        some (.invalidInput .appendJobEvents .emptyEventBatch) := by
  refine ⟨?_, by decide +kernel, by decide, by decide +kernel, by decide +kernel,
    by decide +kernel, by decide +kernel⟩
  unfold Ordered
  decide

end Sample

end StoreState

end OctaCity.Store
