/-
  OctaCity.Store.Steps

  Every transaction of the store is a sequence of writes (`step_writes`).  A
  property that each write keeps therefore holds of every reachable state
  (`Reachable.induction`).
-/
import OctaCity.Orchestrator.Decision
import OctaCity.Store.Statements

namespace OctaCity.Store

open Domain Job Lib List Orchestrator Pipeline

namespace StoreState

variable {rules : CoreRules} {timed grants : Bool} {s s' : StoreState}

/-! ## Mutations -/

section

variable {Key Request Outcome : Type} {records : IdempotencyRecords Key Request Outcome} {key : Key}
  {request : Request} {entity : StoreEntity}

theorem hasKey_commit (outcome : Outcome) : HasKey (commitMutation records key request outcome) key :=
  ⟨_, mem_append_right _ (mem_singleton_self _), rfl⟩

variable [DecidableEq Key] [DecidableEq Request]

theorem not_hasKey (h : beginMutation records key request entity = .ok none) :
    ¬HasKey records key := by
  rintro ⟨record, hrecd, hkey⟩
  exact beginMutation_eq_none.mp h record hrecd hkey

/-- A mutation is replayed, or it begins under a key that no record has. -/
theorem begin_mutates {α : Type} {used : Prop} {result : α × StoreState}
    {rest : Option Outcome → Except StoreError (α × StoreState)}
    (h : beginMutation records key request entity >>= rest = .ok result)
    (hreplay : ∀ stored, rest (some stored) = .ok result → result.2 = s)
    (hfresh : rest none = .ok result →
      result.2 = s ∨ used ∧ WritesIn rules timed grants s result.2) :
    result.2 = s ∨ ¬HasKey records key ∧ used ∧ WritesIn rules timed grants s result.2 := by
  obtain ⟨begun, hbegin, h⟩ := bind_eq_ok.mp h
  cases begun with
  | some stored => exact .inl (hreplay stored h)
  | none => exact (hfresh h).imp_right fun hused => ⟨not_hasKey hbegin, hused⟩

end

theorem Mutates.writes {key : MutationKey} (h : Mutates rules timed grants key s s') :
    WritesIn rules timed grants s s' := by
  obtain rfl | ⟨-, -, hwrites⟩ := h
  · exact .refl
  · exact hwrites

/-! ## Materialization -/

variable {operation : StoreOperation} {buildId : BuildId} {busy : JobId → Bool}
  {request : JobClaim} {registration : RegistrationRow} {pool : PoolRow}
  {now transitionedAt : Timestamp} {leaseId : LeaseId} {lease : LeaseRow} {jobId : JobId}
  {events accepted : List DurableJobEvent} {path : JobPath} {terminal state : JobState}
  {node : JobGraphNode} {decision : OrchestrationDecision} {nodes : List JobGraphNode}
  {attemptId : AttemptId} {applied : AppliedOrchestration} {row : RecoveryRow}
  {action : LeaseRecoveryAction} {count : Nat} {ids : List JobId}
  {outcome : CancellationDisposition}

theorem validateMaterializedJobs_graph {jobs : List MaterializedJob}
    (h : validateMaterializedJobs rules operation buildId jobs = .ok ()) :
    materializedGraph jobs = .ok () := by
  unfold validateMaterializedJobs at h
  simp only [guard_eq_ok] at h
  obtain ⟨-, -, -, -, h⟩ := h
  obtain ⟨-, h⟩ := check_eq_ok.mp h
  simp only [guard_eq_ok] at h
  exact mapError_eq_ok.mp h.2.2

theorem materialize_mutates {request : MaterializeBuild} {ready : List JobId}
    (h : s.materialize rules request = .ok (ready, s')) :
    Mutates rules timed grants (.materialize request.build.id) s s' := by
  obtain ⟨hvalid, h⟩ := check_eq_ok.mp h
  obtain ⟨-, h⟩ := check_eq_ok.mp h
  obtain ⟨s₁, hins, h⟩ := bind_eq_ok.mp h
  obtain ⟨s₂, hatt, h⟩ := bind_eq_ok.mp h
  cases h
  obtain ⟨-, hfresh, hblds⟩ := insertBuild_eq_ok hins
  refine .inr ⟨?_, ?_, .single
    (.accept rfl hins rfl rfl (validateMaterializedJobs_graph hvalid) hatt)⟩
  · rintro ⟨build, hbuild⟩
    rw [hfresh] at hbuild
    cases hbuild
  · rw [(materializeAttempt_eq_ok hatt).1]
    exact ⟨_, (hblds _).trans (if_pos rfl)⟩

theorem number_eq_ok {value : Nat} {stored : Bigint}
    (h : number value operation = .ok stored) : (stored : Nat) = value := by
  unfold number at h
  split at h
  · cases h
    rfl
  · cases h

theorem retryFresh_writes {request : RetryBuild} {outcome : RetryDisposition}
    (hgraph : materializedGraph request.jobs = .ok ())
    (h : s.retryFresh rules request = .ok (outcome, s')) : WritesIn rules timed grants s s' := by
  obtain ⟨build, hbuild, h⟩ := bind_eq_ok.mp h
  rw [guard_eq_ok] at h
  obtain ⟨source, hsrc, h⟩ := bind_eq_ok.mp h.2
  obtain ⟨decision, hdec, h⟩ := bind_eq_ok.mp h
  rw [guard_eq_ok] at h
  obtain ⟨-, h⟩ := check_eq_ok.mp h.2
  obtain ⟨stored, hstor, h⟩ := bind_eq_ok.mp h
  obtain ⟨s₁, hatt, h⟩ := bind_eq_ok.mp h
  cases h
  obtain ⟨hfailed, hlost, rfl⟩ := decideRetry_eq_ok (mapError_eq_ok.mp hdec)
  exact .single (.retry (okOr_eq_ok.mp hbuild) hfailed (okOr_eq_ok.mp hsrc) hlost
    (number_eq_ok hstor) rfl hgraph hatt)

theorem retry_mutates {request : RetryBuild} {outcome : RetryDisposition}
    (h : s.retryBuild rules request = .ok (outcome, s')) :
    Mutates rules timed grants (.retry request.idempotencyKey) s s' := by
  obtain ⟨hvalid, h⟩ := check_eq_ok.mp h
  refine begin_mutates h (fun stored h => by cases h; rfl) fun h => ?_
  obtain ⟨⟨outcome, s₁⟩, hfresh, h⟩ := bind_eq_ok.mp h
  cases h
  unfold RetryBuild.validate at hvalid
  rw [guard_eq_ok] at hvalid
  obtain ⟨hvalid, -⟩ := check_eq_ok.mp hvalid.2
  exact .inr ⟨hasKey_commit _, (retryFresh_writes (validateMaterializedJobs_graph hvalid) hfresh).tail
    (.record { Idempotency.Grows.refl _ with retryBuild := prefix_append _ _ } (fun _ => by rfl)
      fun _ h => .inl h)⟩

/-! ## Claims -/

theorem selectCandidate_ready {candidate : Candidate}
    (h : s.selectCandidate rules busy request registration pool = some candidate) :
    s.locate candidate.entry.jobId = some candidate.path ∧ candidate.path.job.state = .ready := by
  have hmem := mem_of_find?_eq_some h
  rw [candidates, mem_mergeSort, mem_filter, mem_filterMap] at hmem
  obtain ⟨⟨entry, -, hcand⟩, -⟩ := hmem
  unfold StoreState.candidate at hcand
  simp only [Option.bind_eq_bind, Option.bind_eq_some_iff] at hcand
  obtain ⟨path, hpath, spec, -, hcand⟩ := hcand
  split at hcand
  · rename_i hready
    cases hcand
    exact ⟨hpath, hready⟩
  · cases hcand

section

variable {epoch : Bigint} (h : s.placement request epoch = some (registration, pool))

include h

theorem placement_eq_some :
    registration ∈ s.registrations.rows ∧ registration.agentId = request.agentId ∧
      s.ownsLease request.agentId = false ∧ registration.revoked = false ∧
        request.claimedAt < registration.expiresAt := by
  unfold placement at h
  simp only [Option.bind_eq_bind, Option.bind_eq_some_iff] at h
  obtain ⟨agent, hagent, row, hrow, pool', -, h⟩ := h
  split at h
  · rename_i hok
    cases h
    have hagentId : agent.id = request.agentId := Table.key_of_find? hagent
    have hpred := List.find?_some hrow
    simp only [decide_eq_true_eq] at hpred
    obtain ⟨-, -, -, hunrevoked, hunexpired, -, -, -, hfree⟩ := hok
    exact ⟨mem_of_find?_eq_some hrow, hpred.1, by simpa [hagentId] using hfree,
      by simpa using hunrevoked, hunexpired⟩
  · cases h

theorem placement_poolLoad : s.poolLoad request.poolId < pool.concurrencyLimit := by
  unfold placement at h
  simp only [Option.bind_eq_bind, Option.bind_eq_some_iff] at h
  obtain ⟨agent, -, row, -, pool', -, h⟩ := h
  split at h
  · rename_i hok
    cases h
    rw [← hok.1]
    exact hok.2.2.2.2.2.2.2.1
  · cases h

end

section

variable {outcome : JobClaimOutcome} (h : s.claimReadyJob rules busy request = .ok (outcome, s'))

include h

/-- A claim changes nothing or takes one ready Job for a new Lease. -/
theorem claim_eq_ok : s' = s ∨
      ∃ epoch registration pool candidate s₁, request.claimedAt < request.expiresAt ∧
        number request.registrationEpoch .claimReadyJob = .ok epoch ∧
        s.placement request epoch = some (registration, pool) ∧
        s.selectCandidate rules busy request registration pool = some candidate ∧
        s.takeJob (newLease request epoch registration pool candidate.entry.jobId) = .ok s₁ ∧
        s' = { s₁ with idempotency.claimReadyJob := s'.idempotency.claimReadyJob } ∧
        s₁.idempotency.claimReadyJob <+: s'.idempotency.claimReadyJob ∧
        ¬s.Used (.claim request.leaseId) ∧ s'.Used (.claim request.leaseId) := by
  obtain ⟨hwin, h⟩ := check_eq_ok.mp h
  replace hwin : request.claimedAt < request.expiresAt := by
    rw [JobClaim.validate, guard_eq_ok] at hwin
    exact not_le.mp hwin.1
  obtain ⟨epoch, hepoch, h⟩ := bind_eq_ok.mp h
  obtain ⟨begun, hbegin, h⟩ := bind_eq_ok.mp h
  cases begun with
  | some stored =>
    cases h
    exact .inl rfl
  | none =>
    cases hplace : s.placement request epoch with
    | none =>
      simp only [hplace] at h
      cases h
      exact .inl rfl
    | some placed =>
      obtain ⟨registration, pool⟩ := placed
      simp only [hplace, guard_eq_ok] at h
      replace h := h.2
      cases hselect : s.selectCandidate rules busy request registration pool with
      | none =>
        simp only [hselect] at h
        cases h
        exact .inl rfl
      | some candidate =>
        simp only [hselect] at h
        obtain ⟨s₁, htake, h⟩ := bind_eq_ok.mp h
        cases h
        exact .inr ⟨epoch, registration, pool, candidate, s₁, hwin, hepoch, hplace, hselect,
          htake, rfl, prefix_append _ _, not_hasKey hbegin, hasKey_commit _⟩

theorem claim_mutates : Mutates rules timed true (.claim request.leaseId) s s' := by
  obtain rfl | ⟨epoch, registration, pool, candidate, s₁, -, -, hplace, hselect, htake, hs',
    hgrows, hfree, hused⟩ := claim_eq_ok h
  · exact .inl rfl
  · obtain ⟨hmem, hagent, hunowned, -⟩ := placement_eq_some hplace
    obtain ⟨hpath, hready⟩ := selectCandidate_ready hselect
    have hwrite : WriteIn rules timed true s s₁ := by
      refine .take rfl (locate_eq_some.mp hpath).1 hready (Table.find?_of_mem _ hmem) ?_ rfl htake
      rw [hagent]
      exact hunowned
    refine .inr ⟨hfree, hused, ?_⟩
    rw [hs']
    exact (Relation.ReflTransGen.single hwrite).tail
      (.record { Idempotency.Grows.refl _ with claimReadyJob := hgrows } (fun _ => by rfl)
        fun _ h => .inl h)

end

/-! ## Lease holders -/

/-- A lease is loaded for its own Agent, epoch and fence only. -/
theorem loadLease_eq_ok {access : LeaseAccess}
    {row : LoadedLease} (h : s.loadLease now access operation = .ok row) :
    s.leases.find? access.leaseId = some row.lease ∧ s.locate row.lease.jobId = some row.path ∧
      s.registrations.find? row.lease.registrationId = some row.registration ∧
        s.agents.find? row.registration.agentId = some row.agent ∧
          row.expired = decide (row.lease.expiresAt ≤ now) ∧ row.agent.id = access.agentId ∧
              (row.lease.registrationEpoch : Nat) = access.registrationEpoch ∧
                row.lease.fence = access.fence := by
  obtain ⟨epoch, hepoch, h⟩ := bind_eq_ok.mp h
  obtain ⟨joined, hjoin, h⟩ := bind_eq_ok.mp h
  rw [guard_eq_ok] at h
  obtain ⟨hhold, h⟩ := h
  cases h
  have hjoin := okOr_eq_ok.mp hjoin
  unfold joinLease at hjoin
  simp only [Option.bind_eq_bind, Option.bind_eq_some_iff, Option.some.injEq] at hjoin
  obtain ⟨lease, hlease, path, hpath, registration, hreg, agent, hagent, rfl⟩ := hjoin
  simp only [not_or, not_not] at hhold
  refine ⟨hlease, hpath, hreg, hagent, rfl, hhold.1, ?_, hhold.2.2⟩
  rw [hhold.2.1, number_eq_ok hepoch]

theorem requireCurrent_eq_ok {row : LoadedLease} {access : LeaseAccess} {observedAt : Timestamp} :
    requireCurrent row access observedAt = .ok () ↔
      row.lease.state.isCurrent = true ∧ row.expired = false ∧ observedAt < row.lease.expiresAt ∧
        row.registration.revoked = false ∧ observedAt < row.registration.expiresAt := by
  unfold requireCurrent
  simp only [guard_eq_ok, not_or, and_true]
  cases hstate : row.lease.state <;> simp [LeaseState.isCurrent, and_assoc]

/-! ## Heartbeat and events -/

theorem renewDeadline_id (h : s.leases.find? leaseId = some lease) : leaseId = lease.id :=
  (Table.key_of_find? h).symm

theorem directive_writes {request : RenewLease}
    {outcome : LeaseHeartbeatOutcome} (hlease : s.leases.find? request.lease.leaseId = some lease)
    (hcur : lease.state.isCurrent = true)
    (h : s.directive request lease.state = .ok (outcome, s')) : WritesIn rules true grants s s' := by
  have hid : request.lease.leaseId = lease.id := renewDeadline_id hlease
  rw [hid] at hlease
  cases hstate : lease.state with
  | active =>
    rw [hstate] at h
    obtain ⟨s₁, hrenew, h⟩ := bind_eq_ok.mp h
    cases h
    rw [hid] at hrenew
    exact .single (.renew rfl hlease hcur hrenew)
  | drainRequested =>
    rw [hstate] at h
    obtain ⟨s₁, hrenew, h⟩ := bind_eq_ok.mp h
    cases h
    rw [hid] at hrenew
    exact .single (.renew rfl hlease hcur hrenew)
  | cancellationRequested | completed | expired =>
    rw [hstate] at h
    cases h
    exact .refl

theorem fencedOutcome_eq_ok {error : StoreError} {outcome : LeaseHeartbeatOutcome}
    (h : s.fencedOutcome error = .ok (outcome, s')) : outcome = .fenced ∧ s' = s := by
  cases error <;> cases h
  all_goals exact ⟨rfl, rfl⟩

theorem renew_mutates {request : RenewLease} {outcome : LeaseHeartbeatOutcome}
    (h : s.renewLease now request = .ok (outcome, s')) :
    Mutates rules true grants (.renew request.idempotencyKey) s s' := by
  obtain ⟨-, h⟩ := check_eq_ok.mp h
  refine begin_mutates h (fun stored h => by cases h; rfl) fun h => ?_
  replace h : s.renewFresh now request = .ok (outcome, s') := h
  unfold renewFresh at h
  split at h
  · exact .inl (fencedOutcome_eq_ok h).2
  · rename_i row hload
    split at h
    · cases h
      exact .inl rfl
    · split at h
      · exact .inl (fencedOutcome_eq_ok h).2
      · rename_i hcur
        obtain ⟨⟨outcome, s₁⟩, hdir, h⟩ := bind_eq_ok.mp h
        cases h
        exact .inr ⟨hasKey_commit _, (directive_writes (loadLease_eq_ok hload).1
          (requireCurrent_eq_ok.mp hcur).1 hdir).tail
            (.record { Idempotency.Grows.refl _ with renewLease := prefix_append _ _ } nofun fun _ h => .inl h)⟩

theorem startJobExecution_eq_ok {current next : JobState} (h : startJobExecution current = .ok next) :
    isHeld current = true ∧ (next = current ∨ current = .leased ∧ next = .running) := by
  cases current <;> cases h
  all_goals first | exact ⟨rfl, .inl rfl⟩ | exact ⟨rfl, .inr ⟨rfl, rfl⟩⟩

theorem persistExecutionStarted_writes
    (h : s.persistExecutionStarted jobId = .ok s') : WritesIn rules timed grants s s' := by
  obtain ⟨job, -, h⟩ := bind_eq_ok.mp h
  obtain ⟨next, hstart, h⟩ := bind_eq_ok.mp h
  split at h
  · rename_i hne
    cases h
    obtain ⟨-, rfl | ⟨hleased, rfl⟩⟩ := startJobExecution_eq_ok hstart
    · exact absurd rfl hne
    · rw [hleased]
      exact .single .begin
  · cases h
    exact .refl

theorem startForEvents_writes (h : s.startForEvents jobId events = .ok s') :
    WritesIn rules timed grants s s' ∧ s'.jobEvents = s.jobEvents := by
  unfold startForEvents at h
  split at h
  · cases h
    exact ⟨.refl, rfl⟩
  · refine ⟨persistExecutionStarted_writes h, ?_⟩
    obtain ⟨job, -, h⟩ := bind_eq_ok.mp h
    obtain ⟨next, -, h⟩ := bind_eq_ok.mp h
    split at h <;> cases h <;> rfl

/-- The new events of a batch continue the durable sequence. -/
theorem acceptEvents_eq_ok {durableThrough expected : Nat}
    (h : s.acceptEvents jobId durableThrough expected events = .ok accepted) :
    accepted.map (·.sequence) = List.range' expected accepted.length ∧
      ∀ event ∈ accepted, event.sequence < 2 ^ 63 := by
  induction events generalizing expected accepted with
  | nil =>
    cases h
    exact ⟨rfl, fun _ hevent => absurd hevent not_mem_nil⟩
  | cons event rest ih =>
    unfold acceptEvents at h
    split at h
    · rw [guard_eq_ok] at h
      exact ih h.2
    · rw [guard_eq_ok, not_not] at h
      obtain ⟨hexp, h⟩ := h
      obtain ⟨stored, hstor, h⟩ := bind_eq_ok.mp h
      obtain ⟨later, hlater, h⟩ := bind_eq_ok.mp h
      cases h
      obtain ⟨hnumd, hbound⟩ := ih hlater
      have hevent : event.sequence < 2 ^ 63 := by
        rw [← number_eq_ok hstor]
        exact stored.isLt
      refine ⟨?_, fun other hother => ?_⟩
      · rw [map_cons, hnumd, hexp, length_cons, List.range'_succ]
      · obtain rfl | hother := mem_cons.mp hother
        · exact hevent
        · exact hbound other hother

theorem insertLogChunk_writes {chunk : LogChunkManifest}
    (h : insertLogChunk path s chunk = .ok s') : WritesIn rules timed grants s s' := by
  obtain ⟨_, -, h⟩ := bind_eq_ok.mp h
  obtain ⟨_, -, h⟩ := bind_eq_ok.mp h
  obtain ⟨_, -, h⟩ := bind_eq_ok.mp h
  obtain ⟨_, -, h⟩ := bind_eq_ok.mp h
  rw [guard_eq_ok] at h
  cases h.2
  exact .single .logs

theorem foldlM_writes {α : Type} {f : StoreState → α → Except StoreError StoreState} {l : List α}
    (hf : ∀ a s s', f s a = .ok s' → WritesIn rules timed grants s s') (h : l.foldlM f s = .ok s') :
    WritesIn rules timed grants s s' := by
  induction l generalizing s with
  | nil =>
    cases h
    exact .refl
  | cons a rest ih =>
    rw [foldlM_cons] at h
    obtain ⟨s₁, hfirst, h⟩ := bind_eq_ok.mp h
    exact (hf a s s₁ hfirst).trans (ih h)

theorem persistLogChunks_writes {chunks : List LogChunkManifest}
    (h : s.persistLogChunks path chunks = .ok s') : WritesIn rules timed grants s s' := by
  unfold persistLogChunks at h
  split at h
  · cases h
    exact .refl
  · rw [guard_eq_ok] at h
    exact foldlM_writes (fun _ _ _ => insertLogChunk_writes) h.2

/-- An append starts its Job and changes no other row. -/
theorem startForEvents_frame
    (h : s.startForEvents jobId events = .ok s') : s' = { s with jobs := s'.jobs } := by
  unfold startForEvents at h
  split at h
  · cases h
    rfl
  · obtain ⟨job, -, h⟩ := bind_eq_ok.mp h
    obtain ⟨next, -, h⟩ := bind_eq_ok.mp h
    split at h <;> cases h <;> rfl

theorem insertLogChunk_frame {chunk : LogChunkManifest} (h : insertLogChunk path s chunk = .ok s') :
    s' = { s with logChunks := s'.logChunks, committedThrough := s'.committedThrough } := by
  obtain ⟨_, -, h⟩ := bind_eq_ok.mp h
  obtain ⟨_, -, h⟩ := bind_eq_ok.mp h
  obtain ⟨_, -, h⟩ := bind_eq_ok.mp h
  obtain ⟨_, -, h⟩ := bind_eq_ok.mp h
  rw [guard_eq_ok] at h
  cases h.2
  rfl

theorem persistLogChunks_frame {chunks : List LogChunkManifest}
    (h : s.persistLogChunks path chunks = .ok s') :
    s' = { s with logChunks := s'.logChunks, committedThrough := s'.committedThrough } := by
  unfold persistLogChunks at h
  split at h
  · cases h
    rfl
  · rw [guard_eq_ok] at h
    replace h := h.2
    clear * - h
    induction chunks generalizing s with
    | nil =>
      cases h
      rfl
    | cons chunk rest ih =>
      rw [foldlM_cons] at h
      obtain ⟨s₁, hfirst, h⟩ := bind_eq_ok.mp h
      rw [ih h, insertLogChunk_frame hfirst]

theorem foldl_max_bounds (numbers : List Nat) (start : Nat) :
    start ≤ numbers.foldl max start ∧ ∀ n ∈ numbers, n ≤ numbers.foldl max start := by
  induction numbers generalizing start with
  | nil => exact ⟨le_refl _, fun n hn => absurd hn not_mem_nil⟩
  | cons m rest ih =>
    obtain ⟨hstart, hrest⟩ := ih (max start m)
    refine ⟨(le_max_left _ _).trans hstart, fun n hn => ?_⟩
    obtain rfl | hn := mem_cons.mp hn
    · exact (le_max_right _ _).trans hstart
    · exact hrest n hn

/-- No durable event is past the cursor. -/
theorem le_durableThrough {row : JobEventRow} (hrow : row ∈ s.jobEvents) :
    row.event.sequence ≤ s.durableThrough row.jobId := by
  refine (foldl_max_bounds _ 0).2 _ (mem_map_of_mem (mem_filter.mpr ⟨hrow, ?_⟩))
  simp

theorem acceptEvents_covers {durableThrough expected : Nat}
    (h : s.acceptEvents jobId durableThrough expected events = .ok accepted) :
    ∀ event ∈ events, event.sequence ≤ durableThrough ∨ event ∈ accepted := by
  induction events generalizing expected accepted with
  | nil => exact fun event hevent => absurd hevent not_mem_nil
  | cons first rest ih =>
    unfold acceptEvents at h
    intro event hevent
    split at h
    · rename_i hold
      rw [guard_eq_ok] at h
      obtain rfl | hevent := mem_cons.mp hevent
      · exact .inl hold
      · exact ih h.2 event hevent
    · rw [guard_eq_ok] at h
      obtain ⟨_, -, h⟩ := bind_eq_ok.mp h.2
      obtain ⟨later, hlater, h⟩ := bind_eq_ok.mp h
      cases h
      obtain rfl | hevent := mem_cons.mp hevent
      · exact .inr (mem_cons_self ..)
      · exact (ih hlater event hevent).imp_right (mem_cons_of_mem _)

/-- An accepted batch is durable to its end. -/
theorem lastSequence_le_durableThrough {request : AppendJobEvents}
    (h : s.acceptEvents jobId (s.durableThrough jobId) (s.durableThrough jobId + 1) request.events =
      .ok accepted) :
    request.lastSequence ≤ (s.insertEvents jobId leaseId accepted).durableThrough jobId := by
  unfold AppendJobEvents.lastSequence
  cases hlast : request.events.getLast? with
  | none => exact Nat.zero_le _
  | some event =>
    obtain hold | hnew := acceptEvents_covers h event (mem_of_getLast? hlast)
    · refine hold.trans ?_
      -- the cursor never moves back
      have hrows : (s.insertEvents jobId leaseId accepted).durableThrough jobId =
          ((((accepted.map fun event => (⟨jobId, leaseId, event⟩ : JobEventRow)).filter
            fun row => row.jobId = jobId).map (·.event.sequence)).foldl max
              (s.durableThrough jobId)) := by
        simp only [durableThrough, insertEvents, filter_append, map_append,
          foldl_append]
      rw [hrows]
      exact (foldl_max_bounds _ _).1
    · exact le_durableThrough (s := s.insertEvents jobId leaseId accepted)
        (mem_append_right _ (mem_map_of_mem hnew))

theorem append_mutates {request : AppendJobEvents} {outcome : AppendJobEventsOutcome}
    (h : s.appendJobEvents rules now request = .ok (outcome, s')) :
    Mutates rules timed grants (.append request.key) s s' := by
  obtain ⟨-, h⟩ := check_eq_ok.mp h
  refine begin_mutates h (fun stored h => by cases h; rfl) fun h => ?_
  replace h : s.appendFresh now request = .ok (outcome, s') := h
  obtain ⟨row, hload, h⟩ := bind_eq_ok.mp h
  obtain ⟨hcur, h⟩ := check_eq_ok.mp h
  obtain ⟨_, -, h⟩ := bind_eq_ok.mp h
  obtain ⟨events, hacc, h⟩ := bind_eq_ok.mp h
  obtain ⟨-, h⟩ := check_eq_ok.mp h
  obtain ⟨s₁, hstarted, h⟩ := bind_eq_ok.mp h
  obtain ⟨s₂, hlogs, h⟩ := bind_eq_ok.mp h
  cases h
  obtain ⟨hwrites, hsame⟩ := startForEvents_writes hstarted
  have hevs : WriteIn rules timed grants s₁ (s₁.insertEvents row.lease.jobId request.lease.leaseId events) := by
    obtain ⟨hnumd, hbound⟩ := acceptEvents_eq_ok hacc
    refine .events ?_ hbound ⟨row.lease, ?_, rfl, (requireCurrent_eq_ok.mp hcur).1⟩
    · rw [durableThrough, hsame]
      exact hnumd
    · rw [startForEvents_frame hstarted]
      exact (loadLease_eq_ok hload).1
  refine .inr ⟨hasKey_commit _, ((hwrites.tail hevs).trans (persistLogChunks_writes hlogs)).tail
    (.record { Idempotency.Grows.refl _ with appendJobEvents := prefix_append _ _ }
      (fun _ => by rfl) fun record hrecd => ?_)⟩
  -- the batch of a new record is durable
  have hframe := persistLogChunks_frame hlogs
  rw [startForEvents_frame hstarted] at hframe
  obtain hold | hnew := mem_append.mp hrecd
  · exact .inl hold
  · obtain rfl := mem_singleton.mp hnew
    refine .inr ⟨row.lease, ?_, ?_⟩
    · rw [hframe]
      exact (loadLease_eq_ok hload).1
    · have hdur : s₂.durableThrough row.lease.jobId =
          (s.insertEvents row.lease.jobId request.lease.leaseId events).durableThrough
            row.lease.jobId := by rw [hframe]; rfl
      rw [hdur]
      exact lastSequence_le_durableThrough hacc

/-! ## Completion -/

theorem completeJobState_eq_ok {current : JobState} {kind : JobCompletionKind}
    (h : completeJobState current kind = .ok terminal) :
    isHeld current = true ∧ terminal.isTerminal = true := by
  obtain ⟨started, hstart, h⟩ := bind_eq_ok.mp h
  obtain ⟨hheld, hstarted⟩ := startJobExecution_eq_ok hstart
  refine ⟨hheld, ?_⟩
  have h := mapError_eq_ok.mp h
  cases kind <;> cases started <;> cases h
  all_goals rfl

/-- A completion ends the Job as its kind says and closes the Lease. -/
theorem persistTerminalState_eq_ok {request : JobCompletion}
    (hlease : s.leases.find? request.lease.leaseId = some lease)
    (h : s.persistTerminalState request lease.jobId = .ok s') :
    ∃ job terminal, s.jobs.find? lease.jobId = some job ∧
      completeJobState job.state request.kind = .ok terminal ∧
      jobState terminal = completionKind request.kind ∧
      s' = s.finishJob lease .completed terminal := by
  obtain ⟨job, hjob, h⟩ := bind_eq_ok.mp h
  obtain ⟨terminal, hterm, h⟩ := bind_eq_ok.mp h
  rw [guard_eq_ok, not_not] at h
  obtain ⟨htext, h⟩ := h
  cases h
  refine ⟨job, terminal, okOr_eq_ok.mp hjob, hterm, htext, ?_⟩
  rw [finishJob, Table.key_of_find? hlease]

/-! ## Reconciliation -/

theorem node_eq_ok {row : JobRow} (h : row.node = .ok node) :
    node.id = row.id ∧ node.state = row.state := by
  unfold JobRow.node JobGraphNode.new at h
  simp only at h
  split at h
  · cases h
  · split at h
    · cases h
      exact ⟨rfl, rfl⟩
    · cases h

theorem mem_transitionsTo :
    jobId ∈ transitionsTo decision state ↔ ⟨jobId, state⟩ ∈ decision.jobTransitions := by
  simp only [transitionsTo, mem_map, mem_filter, decide_eq_true_eq]
  constructor
  · rintro ⟨selected, ⟨hmem, rfl⟩, rfl⟩
    exact hmem
  · intro hmem
    exact ⟨_, ⟨hmem, rfl⟩, rfl⟩

/-- Storing a decision leaves every Job in its final state. -/
theorem unblocked_eq_final {cancelled : Bool} {final : JobId → JobState}
    (h : Decides nodes cancelled decision final) (hnode : node ∈ nodes) :
    unblocked (transitionsTo decision .ready) (transitionsTo decision .skipped) node.id node.state =
      final node.id := by
  unfold unblocked
  simp only [mem_transitionsTo, h.transition_iff hnode]
  by_cases hblk : node.state = .blocked
  · have hfinal := @Decides.ready_or_skipped _ _ _ _ h ⟨node.id, final node.id⟩
    simp only [h.transition_iff hnode, hblk, true_and] at hfinal
    simp only [hblk, if_true, true_and]
    by_cases hstay : final node.id = .blocked
    · simp [hstay]
    · obtain hready | hskipped := hfinal hstay
      · simp [hready]
      · simp [hskipped]
  · simp [hblk, h.settles.keeps node hnode hblk]

/-- What a reconciliation decided and what it wrote for it. -/
theorem reconcileAndApply_eq_ok
    (h : s.reconcileAndApply rules attemptId buildId transitionedAt = .ok (applied, s')) :
    ∃ nodes decision final s₁, s.attemptGraph attemptId = .ok nodes ∧
      Decides nodes (s.cancellationRequested buildId) decision final ∧
      unblock rules s (transitionsTo decision .ready) (transitionsTo decision .skipped)
        transitionedAt = .ok s₁ ∧
      s' = s₁.aggregate attemptId buildId decision.attemptState decision.buildState ∧
      applied = ⟨transitionsTo decision .ready, transitionsTo decision .skipped,
        decision.attemptState, decision.buildState⟩ := by
  obtain ⟨decision, hdec, h⟩ := bind_eq_ok.mp h
  obtain ⟨s₁, h₁, h⟩ := bind_eq_ok.mp h
  obtain ⟨s₂, h₂, h⟩ := bind_eq_ok.mp h
  obtain ⟨s₃, h₃, h⟩ := bind_eq_ok.mp h
  obtain ⟨s₄, h₄, h⟩ := bind_eq_ok.mp h
  cases h
  obtain ⟨nodes, hnodes, hrec⟩ := bind_eq_ok.mp (mapError_eq_ok.mp hdec)
  have hdecs : ∃ final, Decides nodes (s.cancellationRequested buildId) decision final := by
    cases hcanc : s.cancellationRequested buildId with
    | true =>
      rw [hcanc, if_pos rfl] at hrec
      exact reconcile_eq_ok hrec
    | false =>
      rw [hcanc, if_neg (by simp)] at hrec
      exact reconcile_eq_ok hrec
  obtain ⟨final, hfinal⟩ := hdecs
  refine ⟨nodes, decision, final, s₄, hnodes, hfinal, ?_, rfl, rfl⟩
  exact bind_eq_ok.mpr ⟨s₁, h₁, bind_eq_ok.mpr ⟨s₂, h₂, bind_eq_ok.mpr ⟨s₃, h₃, h₄⟩⟩⟩

theorem attemptGraph_node
    (h : s.attemptGraph attemptId = .ok nodes) {row : JobRow} (hrow : row ∈ s.attemptJobs attemptId) :
    ∃ node ∈ nodes, node.id = row.id ∧ node.state = row.state := by
  obtain ⟨node, hnode, heq⟩ := forall₂_exists_right (mapM_eq_ok.mp h) hrow
  exact ⟨node, hnode, node_eq_ok heq⟩

/-- The states of the Jobs of a reconciled Attempt. -/
theorem unblock_final {cancelled : Bool} {final : JobId → JobState} {issuedAt : Timestamp}
    (hnodes : s.attemptGraph attemptId = .ok nodes)
    (hdecs : Decides nodes cancelled decision final)
    (hunblk : unblock rules s (transitionsTo decision .ready) (transitionsTo decision .skipped)
      issuedAt = .ok s') {row : JobRow} (hrow : row ∈ s'.attemptJobs attemptId) :
    ∃ node ∈ nodes, node.id = row.id ∧ row.state = final node.id := by
  obtain ⟨-, hedits, -, -⟩ := unblock_eq_ok hunblk
  obtain ⟨f, hjobs, hf⟩ := hedits.attemptJobs attemptId
  rw [hjobs] at hrow
  obtain ⟨before, hbef, rfl⟩ := mem_map.mp hrow
  obtain ⟨node, hnode, hid, hstate⟩ := attemptGraph_node hnodes hbef
  refine ⟨node, hnode, by rw [hid, (hf before).1.id], ?_⟩
  rw [(hf before).2, ← hid, ← hstate, unblocked_eq_final hdecs hnode]

theorem unblock_job {ready skipped : List JobId} {issuedAt : Timestamp}
    (hnodes : s.attemptGraph attemptId = .ok nodes)
    (hunblk : unblock rules s ready skipped issuedAt = .ok s')
    (hnode : node ∈ nodes) : ∃ job ∈ s'.attemptJobs attemptId, node.id = job.id := by
  obtain ⟨-, hedits, -, -⟩ := unblock_eq_ok hunblk
  obtain ⟨f, hjobs, hf⟩ := hedits.attemptJobs attemptId
  obtain ⟨row, hrow, heq⟩ := forall₂_exists_left (mapM_eq_ok.mp hnodes) hnode
  refine ⟨f row, by rw [hjobs]; exact mem_map_of_mem hrow, ?_⟩
  rw [(hf row).1.id, (node_eq_ok heq).1]

theorem reconcileAndApply_writes {attempt : AttemptRow}
    (hatt : s.attempts.find? attempt.id = some attempt)
    (h : s.reconcileAndApply rules attempt.id attempt.buildId transitionedAt = .ok (applied, s')) :
    WritesIn rules timed grants s s' := by
  obtain ⟨nodes, decision, final, s₁, hnodes, hdecs, hunblk, rfl, -⟩ := reconcileAndApply_eq_ok h
  have hother := (unblock_eq_ok hunblk).1
  refine (Relation.ReflTransGen.single (.unblock hunblk)).tail (.aggregate ?_ ?_ ?_ ?_)
  · rw [hother]
    exact hatt
  · intro hterm job hjob
    obtain ⟨node, hnode, -, hstate⟩ := unblock_final hnodes hdecs hunblk hjob
    rw [hstate]
    exact hdecs.terminal hterm hnode
  · intro hopen
    obtain ⟨node, hnode, hfinal⟩ := hdecs.open hopen
    obtain ⟨job, hjob, hid⟩ := unblock_job hnodes hunblk hnode
    obtain ⟨node', hnode', hid', hstate⟩ := unblock_final hnodes hdecs hunblk hjob
    exact ⟨job, hjob, by rw [hstate, hid', ← hid]; exact hfinal⟩
  · intro hcanc
    have hsame : s₁.cancellationRequested attempt.buildId = s.cancellationRequested attempt.buildId := by
      rw [hother]
      rfl
    rw [hsame] at hcanc
    rw [hcanc] at hdecs
    exact hdecs.not_failed

/-- Reconciliation leaves the Leases alone and ended Jobs ended. -/
theorem reconcileAndApply_keeps
    (h : s.reconcileAndApply rules attemptId buildId transitionedAt = .ok (applied, s')) :
    s'.leases = s.leases ∧ s'.jobCompletions = s.jobCompletions ∧
      ∀ id state, s.stateOf id = some state → state.isTerminal = true →
        s'.stateOf id = some state := by
  obtain ⟨nodes, decision, final, s₁, -, -, hunblk, rfl, -⟩ := reconcileAndApply_eq_ok h
  obtain ⟨hother, hedits, -, -⟩ := unblock_eq_ok hunblk
  have hlses : s₁.leases = s.leases := by rw [hother]
  have hcomps : s₁.jobCompletions = s.jobCompletions := by rw [hother]
  refine ⟨hlses, hcomps, fun id state hstate hterm => ?_⟩
  have hmoved : s₁.stateOf id = some state := by
    rw [hedits.stateOf, hstate]
    cases state <;> cases hterm <;> rfl
  exact hmoved

/-! ## Completions -/

variable (timed) in
/-- A held Job ends, its Attempt is reconciled and its completion is stored. -/
theorem finish_writes {leaseState : LeaseState} (huntim : timed = false → leaseState ≠ .expired)
    (hlease : s.leases.find? lease.id = some lease) (hcur : lease.state.isCurrent = true)
    (hended : leaseState.isCurrent = false) (hpath : s.locate lease.jobId = some path)
    (hheld : isHeld path.job.state = true) (hterm : terminal.isTerminal = true)
    (h : (s.finishJob lease leaseState terminal).reconcileAndApply rules path.attempt.id
      path.build.id transitionedAt = .ok (applied, s')) :
    WritesIn rules timed grants s s' ∧ ∀ row s'', row.jobId = lease.jobId → row.leaseId = lease.id →
      s'.insertCompletion row = .ok s'' → WritesIn rules timed grants s s'' := by
  obtain ⟨hjob, hatt, hbuild⟩ := locate_eq_some.mp hpath
  have haid : path.attempt.id = path.job.attemptId := Table.key_of_find? hatt
  rw [show path.build.id = path.attempt.buildId from Table.key_of_find? hbuild] at h
  have hwrites : WritesIn rules timed grants s s' :=
    (Relation.ReflTransGen.single (.finish huntim hlease hcur hended hjob hheld hterm)).trans
      (reconcileAndApply_writes (by rw [haid]; exact hatt) h)
  refine ⟨hwrites, fun row s'' hrow hrowLease hins => ?_⟩
  obtain ⟨hlses, -, hkeeps⟩ := reconcileAndApply_keeps h
  have hstate : s'.stateOf lease.jobId = some terminal := by
    refine hkeeps _ _ ?_ hterm
    rw [(finishJob_edits lease leaseState terminal).stateOf, stateOf_eq_some.mpr ⟨_, hjob, rfl⟩]
    simp
  obtain ⟨job, hfound, hjobState⟩ := stateOf_eq_some.mp hstate
  rw [← hrow] at hfound
  have hclos : s'.leases.find? row.leaseId = some (lease.withState leaseState) := by
    rw [hlses, hrowLease]
    change (s.closeLease lease.id leaseState).leases.find? lease.id = _
    rw [closeLease_find?, hlease]
    simp
  exact hwrites.tail (.complete hfound (by rw [hjobState]; exact hterm) hclos hrow.symm
    hins)

theorem applyCompletion_writes {request : JobCompletion} {row : LoadedLease}
    {finalSequence : Bigint} {outcome : CompletionDisposition}
    (hlease : s.leases.find? request.lease.leaseId = some row.lease)
    (hcur : row.lease.state.isCurrent = true) (hpath : s.locate row.lease.jobId = some row.path)
    (h : s.applyCompletion rules request row finalSequence = .ok (outcome, s')) :
    WritesIn rules timed grants s s' := by
  obtain ⟨s₁, hpersist, h⟩ := bind_eq_ok.mp h
  obtain ⟨⟨applied, s₂⟩, hrec, h⟩ := bind_eq_ok.mp h
  obtain ⟨s₃, hins, h⟩ := bind_eq_ok.mp h
  cases h
  obtain ⟨job, terminal, hjob, hcompl, -, rfl⟩ := persistTerminalState_eq_ok hlease hpersist
  obtain ⟨hheld, hterm⟩ := completeJobState_eq_ok hcompl
  obtain rfl : row.path.job = job := Option.some.inj ((locate_eq_some.mp hpath).1.symm.trans hjob)
  have hid : row.lease.id = request.lease.leaseId := Table.key_of_find? hlease
  rw [← hid] at hlease
  exact (finish_writes timed (fun _ => by simp) hlease hcur rfl hpath hheld hterm hrec).2 _ _ rfl hid.symm
    hins

theorem commitCompletion_eq_ok {request : JobCompletion} {origin : CompletionOrigin}
    {outcome : CompletionDisposition} (h : s.commitCompletion origin request outcome = .ok s') :
    s' = s.recordCompletion origin request outcome := by
  obtain ⟨-, -, h⟩ := bind_eq_ok.mp h
  obtain ⟨-, -, h⟩ := bind_eq_ok.mp h
  cases h
  rfl

theorem completeWithOrigin_mutates {request : JobCompletion}
    {origin : CompletionOrigin} {outcome : CompletionDisposition}
    (h : s.completeWithOrigin rules now request origin = .ok (outcome, s')) :
    Mutates rules timed grants (.complete origin request.completionId) s s' := by
  refine begin_mutates h (fun stored h => by cases h; rfl) fun h => ?_
  replace h : s.completeFresh rules now request origin = .ok (outcome, s') := h
  obtain ⟨graph, -, h⟩ := bind_eq_ok.mp h
  obtain ⟨row, hload, h⟩ := bind_eq_ok.mp h
  obtain ⟨-, h⟩ := check_eq_ok.mp h
  obtain ⟨finalSequence, -, h⟩ := bind_eq_ok.mp h
  obtain ⟨hlease, hpath, -⟩ := loadLease_eq_ok hload
  split at h
  · split at h
    · -- the other origin committed the completion before
      obtain ⟨replayed, -, h⟩ := bind_eq_ok.mp h
      cases h
      exact .inl rfl
    · cases h
  · obtain ⟨hcur, h⟩ := check_eq_ok.mp h
    obtain ⟨-, h⟩ := check_eq_ok.mp h
    obtain ⟨⟨applied, s₁⟩, happly, h⟩ := bind_eq_ok.mp h
    obtain ⟨s₂, hcmt, h⟩ := bind_eq_ok.mp h
    cases h
    obtain rfl := commitCompletion_eq_ok hcmt
    have hwrites : WritesIn rules timed grants s s₁ :=
      applyCompletion_writes hlease (requireCurrent_eq_ok.mp hcur).1 hpath happly
    right
    cases origin with
    | agent =>
      exact ⟨hasKey_commit _, hwrites.tail
        (.record { Idempotency.Grows.refl _ with completeJob := prefix_append _ _ }
          (fun _ => by rfl) fun _ h => .inl h)⟩
    | assignmentDelivery =>
      exact ⟨hasKey_commit _, hwrites.tail
        (.record { Idempotency.Grows.refl _ with failLeaseAssignment := prefix_append _ _ }
          (fun _ => by rfl) fun _ h => .inl h)⟩

theorem completeWithOrigin_writes {request : JobCompletion}
    {origin : CompletionOrigin} {outcome : CompletionDisposition}
    (h : s.completeWithOrigin rules now request origin = .ok (outcome, s')) :
    WritesIn rules timed grants s s' :=
  (completeWithOrigin_mutates h).writes

/-! ## Recovery -/

theorem joinRecovery_eq_some (h : s.joinRecovery leaseId = some row) :
    s.leases.find? leaseId = some row.lease ∧ s.locate row.lease.jobId = some row.path ∧
      row.cancelled = s.cancellationRequested row.path.build.id := by
  unfold joinRecovery at h
  simp only [Option.bind_eq_bind, Option.bind_eq_some_iff, Option.some.injEq] at h
  obtain ⟨lease, hlease, path, hpath, rfl⟩ := h
  exact ⟨hlease, hpath, rfl⟩

theorem requeueJob_writes (hlease : s.leases.find? row.lease.id = some row.lease)
    (hcur : row.lease.state.isCurrent = true) (hpath : s.locate row.lease.jobId = some row.path)
    (hrequeues : requeues row = true)
    (h : s.requeueJob row = .ok (action, count, s')) : WritesIn rules true grants s s' := by
  obtain ⟨s₁, henq, h⟩ := bind_eq_ok.mp h
  obtain ⟨_, -, h⟩ := bind_eq_ok.mp h
  cases h
  have hallow := of_decide_eq_true hrequeues
  exact .single (.requeue rfl hlease hcur hpath hallow.1 (mapError_eq_ok.mp henq))

theorem insertRecoveredCompletion_eq_ok {row : JobCompletionRow}
    (h : s.insertRecoveredCompletion row = .ok s') : s' = s ∨ s.insertCompletion row = .ok s' := by
  unfold insertRecoveredCompletion at h
  split at h
  · exact .inl (Except.ok.inj h).symm
  · exact .inr (mapError_eq_ok.mp h)

/-- The one Job a recovery ends was held. -/
theorem updateHeldJob_eq_ok (hpath : s.locate lease.jobId = some path)
    (h : (s.closeLease lease.id .expired).updateListedJobs [lease.jobId]
      (fun job => job.state = .leased ∨ job.state = .running ∨ job.state = .cancelling) terminal =
        .ok s') : isHeld path.job.state = true ∧ s' = s.finishJob lease .expired terminal := by
  obtain ⟨hcount, rfl⟩ := updateListedJobs_eq_ok.mp h
  obtain ⟨job, hjob, hpred⟩ := Table.exists_of_countP
    (fun row hpred => (of_decide_eq_true hpred).1) hcount (mem_singleton_self _)
  obtain rfl : path.job = job := Option.some.inj ((locate_eq_some.mp hpath).1.symm.trans hjob)
  have hheld := of_decide_eq_true (of_decide_eq_true hpred).2
  refine ⟨?_, updateJobs_congr terminal fun row hrow => ?_⟩
  · obtain hstate | hstate | hstate := hheld <;> rw [hstate] <;> rfl
  · by_cases hid : row.id = lease.jobId
    · have hsame : row = path.job := by
        have hfound := Table.find?_of_mem _ hrow
        rw [hid] at hfound
        exact Option.some.inj (hfound.symm.trans hjob)
      simp [hsame, hheld]
    · simp [hid]

theorem failJob_writes {recoveredAt : Timestamp}
    (hlease : s.leases.find? row.lease.id = some row.lease)
    (hcur : row.lease.state.isCurrent = true) (hpath : s.locate row.lease.jobId = some row.path)
    (h : s.failJob rules row recoveredAt = .ok (action, count, s')) : WritesIn rules true grants s s' := by
  obtain ⟨s₁, hupdate, h⟩ := bind_eq_ok.mp h
  obtain ⟨⟨applied, s₂⟩, hrec, h⟩ := bind_eq_ok.mp h
  obtain ⟨_, -, h⟩ := bind_eq_ok.mp h
  obtain ⟨s₃, hins, h⟩ := bind_eq_ok.mp h
  obtain ⟨_, -, h⟩ := bind_eq_ok.mp h
  cases h
  obtain ⟨hheld, rfl⟩ := updateHeldJob_eq_ok hpath hupdate
  obtain ⟨hwrites, hcompl⟩ := finish_writes true (by simp) hlease hcur rfl hpath hheld
    (by split <;> rfl) hrec
  obtain rfl | hins := insertRecoveredCompletion_eq_ok hins
  · exact hwrites
  · exact hcompl _ _ rfl rfl hins

theorem settleLease_writes {recoveredAt : Timestamp} (hjoin : s.joinRecovery leaseId = some row)
    (h : s.settleLease rules row recoveredAt = .ok (action, count, s')) : WritesIn rules true grants s s' := by
  obtain ⟨hlease, hpath, -⟩ := joinRecovery_eq_some hjoin
  have hid : row.lease.id = leaseId := Table.key_of_find? hlease
  rw [← hid] at hlease
  unfold settleLease at h
  split at h
  · obtain ⟨_, -, h⟩ := bind_eq_ok.mp h
    cases h
    exact .refl
  · rename_i hcur
    replace hcur : row.lease.state.isCurrent = true := by simpa using hcur
    split at h
    · rename_i hrequeues
      exact requeueJob_writes hlease hcur hpath hrequeues h
    · exact failJob_writes hlease hcur hpath h

theorem recover_mutates {request : RecoverExpiredLease} {outcome : RecoverExpiredLeaseOutcome}
    (h : s.recoverExpiredLease rules request = .ok (outcome, s')) :
    Mutates rules true grants (.recover request.claim.leaseId) s s' := by
  refine begin_mutates h (fun stored h => by cases h; rfl) fun h => ?_
  obtain ⟨⟨outcome, s₁⟩, hfresh, h⟩ := bind_eq_ok.mp h
  cases h
  unfold recoverFresh at hfresh
  rw [guard_eq_ok] at hfresh
  obtain ⟨row, hjoin, hfresh⟩ := bind_eq_ok.mp hfresh.2
  rw [guard_eq_ok] at hfresh
  obtain ⟨⟨action, count, s₂⟩, hset, hfresh⟩ := bind_eq_ok.mp hfresh.2
  cases hfresh
  exact .inr ⟨hasKey_commit _,
    ((settleLease_writes (okOr_eq_ok.mp hjoin) hset).tail (.workerClaims rfl)).tail
      (.record { Idempotency.Grows.refl _ with recoverExpiredLease := prefix_append _ _ }
        (fun _ => by rfl) fun _ h => .inl h)⟩

/-! ## Cancellation and drains -/

/-- The Jobs of an Attempt as the cancellation decision sees them. -/
theorem mem_cancelledTo {decision : CancellationDecision} (hperm : decision.transitions.Perm
      (((s.attemptJobs attemptId).map fun row => (row.id, row.state)).filterMap cancellationOf))
    (state : JobState) (id : JobId) :
    id ∈ cancelledTo decision state ↔ ∃ job ∈ s.attemptJobs attemptId, job.id = id ∧
      isUntargeted job.state = true ∧ afterRequest job.state = state := by
  simp only [cancelledTo, mem_map, mem_filter, decide_eq_true_eq, hperm.mem_iff,
    mem_filterMap, cancellationOf]
  constructor
  · rintro ⟨selected, ⟨⟨-, ⟨job, hjob, rfl⟩, hsel⟩, rfl⟩, rfl⟩
    split at hsel
    · rename_i huntgt
      cases hsel
      exact ⟨job, hjob, rfl, huntgt, rfl⟩
    · cases hsel
  · rintro ⟨job, hjob, rfl, huntgt, rfl⟩
    exact ⟨_, ⟨⟨_, ⟨job, hjob, rfl⟩, by rw [if_pos huntgt]⟩, rfl⟩, rfl⟩

theorem latestAttempt_eq_some {attempt : AttemptRow} (h : s.latestAttempt buildId = some attempt) :
    s.attempts.find? attempt.id = some attempt ∧ attempt.buildId = buildId ∧
      ∀ row ∈ s.attempts.rows, row.buildId = buildId →
        row.attemptNumber ≤ attempt.attemptNumber := by
  have hmem := argmax_mem h
  rw [mem_filter, decide_eq_true_eq] at hmem
  refine ⟨Table.find?_of_mem _ hmem.1, hmem.2, fun row hrow hbuild => ?_⟩
  exact le_of_mem_argmax (mem_filter.mpr ⟨hrow, by simpa using hbuild⟩) h

theorem cancelJobs_eq_ok (h : s.cancelJobs ids state = .ok s') :
    s' = s.updateJobs (fun row => row.id ∈ ids) state := by
  unfold cancelJobs at h
  split at h
  · rename_i hempty
    rw [List.isEmpty_iff] at hempty
    subst hempty
    cases h
    have hjobs : s.jobs = s.jobs.updateWhere (fun row => row.id ∈ ([] : List JobId))
        (JobRow.withState state) (JobRow.withState_id state) := by
      apply Table.ext
      simp [Table.updateWhere]
    rw [updateJobs]
    exact congrArg (fun jobs => { s with jobs }) hjobs
  · obtain ⟨-, rfl⟩ := updateListedJobs_eq_ok.mp h
    exact updateJobs_congr state fun row _ => by simp

theorem requestLeaseCancellation_eq_ok (h : s.requestLeaseCancellation ids = .ok s') :
    s' = s.redirectLeases (fun row => row.jobId ∈ ids) .cancellationRequested := by
  unfold requestLeaseCancellation at h
  split at h
  · rename_i hempty
    rw [List.isEmpty_iff] at hempty
    subst hempty
    cases h
    have hlses : s.leases = s.leases.updateWhere
        (fun row => row.jobId ∈ ([] : List JobId) ∧ row.state.takesDirective)
        (LeaseRow.withState .cancellationRequested)
        (LeaseRow.withState_id .cancellationRequested) := by
      apply Table.ext
      simp [Table.updateWhere]
    rw [redirectLeases, updateLeases]
    exact congrArg (fun leases => { s with leases }) (by simpa using hlses)
  · rw [guard_eq_ok] at h
    exact (Except.ok.inj h.2).symm

theorem isUntargeted_cancelled : isUntargeted state = true ∧ afterRequest state = .cancelled ↔
      state = .blocked ∨ state = .ready := by
  cases state <;> simp [isUntargeted, afterRequest]

theorem isUntargeted_cancelling : isUntargeted state = true ∧ afterRequest state = .cancelling ↔
      state = .leased ∨ state = .running := by
  cases state <;> simp [isUntargeted, afterRequest]

/-- A cancellation that is granted counts one directed Lease for each Job it
    moves to cancelling. -/
theorem requestLeaseCancellation_count (h : s.requestLeaseCancellation ids = .ok s') :
    s.leases.rows.countP (fun row => row.jobId ∈ ids ∧ row.state.takesDirective) = ids.length := by
  unfold requestLeaseCancellation at h
  split at h
  · rename_i hempty
    rw [List.isEmpty_iff] at hempty
    simp [hempty]
  · rw [guard_eq_ok, not_not] at h
    exact h.1

/-- What a cancellation decided, counted and wrote. -/
theorem applyCancellation_eq_ok {request : CancelBuild} {build : BuildRow}
    (h : s.applyCancellation request build = .ok (outcome, s')) :
    ∃ attempt decision, s.latestAttempt request.buildId = some attempt ∧
      cancelJobStates build.state attempt.state
        ((s.attemptJobs attempt.id).map fun row => (row.id, row.state)) = .ok decision ∧
      s.leases.rows.countP (fun row => row.jobId ∈ cancelledTo decision .cancelling ∧
        row.state.takesDirective) = (cancelledTo decision .cancelling).length ∧
      ((s.propagate (cancelledTo decision .cancelled)
        (cancelledTo decision .cancelling)).aggregate attempt.id request.buildId
          decision.attemptState decision.buildState).insertCancellation
            ⟨request.buildId, attempt.id, cancelledTo decision .cancelled,
              cancelledTo decision .cancelling, decision.attemptState, decision.buildState⟩ =
        .ok s' := by
  obtain ⟨attempt, hatt, h⟩ := bind_eq_ok.mp h
  obtain ⟨decision, hdec, h⟩ := bind_eq_ok.mp h
  obtain ⟨s₁, hcanc, h⟩ := bind_eq_ok.mp h
  obtain ⟨s₂, hcing, h⟩ := bind_eq_ok.mp h
  obtain ⟨s₃, hreq, h⟩ := bind_eq_ok.mp h
  obtain ⟨s₄, hins, h⟩ := bind_eq_ok.mp h
  cases h
  have hcount := requestLeaseCancellation_count hreq
  obtain rfl := cancelJobs_eq_ok hcanc
  obtain rfl := cancelJobs_eq_ok hcing
  obtain rfl := requestLeaseCancellation_eq_ok hreq
  exact ⟨attempt, decision, okOr_eq_ok.mp hatt, mapError_eq_ok.mp hdec, hcount, hins⟩

theorem applyCancellation_writes {request : CancelBuild} {build : BuildRow}
    (hbuild : s.builds.find? request.buildId = some build)
    (h : s.applyCancellation request build = .ok (outcome, s')) : WritesIn rules timed grants s s' := by
  obtain ⟨attempt, decision, hatt, hdec, -, hins⟩ := applyCancellation_eq_ok h
  obtain ⟨-, hact, -, hperm, hstates⟩ := cancelJobStates_eq_ok hdec
  have hbid : attempt.buildId = request.buildId := (latestAttempt_eq_some hatt).2.1
  rw [← hbid] at hatt hbuild hins
  refine .single (.cancel hbuild hatt ?_ (fun id => ?_) (fun id => ?_) ?_ ?_ hins)
  · cases hstate : attempt.state <;> rw [hstate] at hact <;> first | rfl | cases hact
  · simp only [mem_cancelledTo hperm, isUntargeted_cancelled]
  · simp only [mem_cancelledTo hperm, isUntargeted_cancelling]
  · obtain ⟨hrun, -, -⟩ | ⟨-, -, hnone⟩ := hstates
    · intro hterm
      rw [hrun] at hterm
      cases hterm
    · intro _ job hjob hstate
      exact hnone ⟨(job.id, job.state), mem_map_of_mem hjob, hstate⟩
  · obtain ⟨-, hstate, -⟩ | ⟨-, hstate, -⟩ := hstates <;> rw [hstate] <;> simp

theorem cancel_mutates {owner : Except StoreError Unit} {observedAt : Timestamp}
    {request : CancelBuild} (h : s.cancelBuild rules owner observedAt request = .ok (outcome, s')) :
    Mutates rules timed grants (.cancel request.key) s s' := by
  obtain ⟨-, h⟩ := check_eq_ok.mp h
  refine begin_mutates h (fun stored h => by cases h; rfl) fun h => .inr ?_
  obtain ⟨-, h⟩ := check_eq_ok.mp h
  obtain ⟨build, hbuild, h⟩ := bind_eq_ok.mp h
  have hrecd : ∀ (s : StoreState) outcome, WriteIn rules timed grants s (s.commitCancellation request outcome) :=
    fun s outcome => .record { Idempotency.Grows.refl _ with cancelBuild := prefix_append _ _ }
        (fun _ => by rfl) fun _ h => .inl h
  split at h
  · cases h
    exact ⟨hasKey_commit _, .single (hrecd _ _)⟩
  · obtain ⟨⟨applied, s₁⟩, happly, h⟩ := bind_eq_ok.mp h
    cases h
    exact ⟨hasKey_commit _, (applyCancellation_writes (okOr_eq_ok.mp hbuild) happly).tail (hrecd _ _)⟩

theorem drain_mutates {request : DrainAgent} (h : s.drainAgent request = .ok ((), s')) :
    Mutates rules timed grants (.drainAgent request.idempotencyKey) s s' := by
  refine begin_mutates h (fun stored h => by cases h; rfl) fun h => ?_
  obtain ⟨s₁, hfresh, h⟩ := bind_eq_ok.mp h
  cases h
  obtain ⟨agent, -, hfresh⟩ := bind_eq_ok.mp hfresh
  obtain ⟨_, -, hfresh⟩ := bind_eq_ok.mp hfresh
  rw [guard_eq_ok] at hfresh
  cases hfresh.2
  refine .inr ⟨hasKey_commit _,
    ((Relation.ReflTransGen.single (.redirect ?_)).tail (.agents fun id hid => ?_)).tail
      (.record { Idempotency.Grows.refl _ with drainAgent := prefix_append _ _ } (fun _ => by rfl)
        fun _ h => .inl h)⟩
  · cases request.mode <;> simp [AgentDrainMode.leaseState]
  · rw [Table.updateWhere, Table.mapRows_contains]
    exact hid

theorem applyLeaseDirective_writes (poolId : PoolId) (drainState : PoolDrainState) :
    WritesIn rules timed grants s (s.applyLeaseDirective poolId drainState) := by
  cases drainState with
  | accepting | drained => exact .refl
  | gracefulDrain => exact .single (.redirect (.inl rfl))
  | forcedDrain => exact .single (.redirect (.inr rfl))

theorem publish_mutates {request : PublishAgentPoolVersion} {version : Nat}
    (h : s.publishAgentPoolVersion rules request = .ok (version, s')) :
    Mutates rules timed grants (.publishPool request.idempotencyKey) s s' := by
  unfold publishAgentPoolVersion at h
  rw [guard_eq_ok] at h
  refine begin_mutates h.2 (fun stored h => by cases h; rfl) fun h => ?_
  obtain ⟨⟨next, s₁⟩, hfresh, h⟩ := bind_eq_ok.mp h
  cases h
  obtain ⟨current, -, hfresh⟩ := bind_eq_ok.mp hfresh
  rw [guard_eq_ok] at hfresh
  obtain ⟨-, hfresh⟩ := check_eq_ok.mp hfresh.2
  cases hfresh
  exact .inr ⟨hasKey_commit _, ((applyLeaseDirective_writes _ _).tail .pools).tail
    (.record { Idempotency.Grows.refl _ with publishAgentPoolVersion := prefix_append _ _ }
      (fun _ => by rfl) fun _ h => .inl h)⟩

/-! ## Steps and runs -/

variable {transaction : Transaction}

/-- What a transaction with a key does; only the heartbeat and the recovery of the expiry
    worker write under a deadline, and only a claim grants a Lease. -/
theorem execute_mutates {key : MutationKey} (hkey : transaction.key = some key)
    (htimed : transaction.isTimed = true → timed = true)
    (hgrant : transaction.isClaim = true → grants = true)
    (h : s.execute rules transaction = .ok s') : Mutates rules timed grants key s s' := by
  cases transaction <;> cases hkey <;> replace h := map_snd_eq_ok h <;> obtain ⟨outcome, h⟩ := h
  case materialize request => exact materialize_mutates h
  case retry request => exact retry_mutates h
  case claim busy request =>
    obtain rfl := hgrant rfl
    exact claim_mutates h
  case renew now request =>
    obtain rfl := htimed rfl
    exact renew_mutates h
  case append now request => exact append_mutates h
  case complete now request => exact completeWithOrigin_mutates h
  case failAssignment now request =>
    obtain ⟨-, h⟩ := check_eq_ok.mp h
    exact completeWithOrigin_mutates h
  case cancel owner observedAt request => exact cancel_mutates h
  case drainAgent request => exact drain_mutates h
  case publishPool request => exact publish_mutates h
  case recover request =>
    obtain rfl := htimed rfl
    exact recover_mutates h

theorem execute_writes (htimed : transaction.isTimed = true → timed = true)
    (hgrant : transaction.isClaim = true → grants = true)
    (h : s.execute rules transaction = .ok s') : WritesIn rules timed grants s s' := by
  cases hkey : transaction.key with
  | some key => exact (execute_mutates hkey htimed hgrant h).writes
  | none =>
    cases transaction with
    | claimExpired busy request =>
      cases h
      exact .single (.workerClaims (htimed rfl))
    | administer change =>
      simp only [execute] at h
      by_cases hallow : change.isAllowed s = true
      · rw [if_pos hallow] at h
        cases h
        exact .single (.administer hallow)
      · rw [if_neg hallow] at h
        cases h
        exact .refl
    | hideLogs buildId =>
      cases h
      exact .single .hideLogs
    | _ => cases hkey

/-- A step of the store is a sequence of writes. -/
theorem step_writes (rules : CoreRules) (s : StoreState) (transaction : Transaction) :
    Writes rules s (s.step rules transaction) := by
  unfold step
  cases h : s.execute rules transaction with
  | ok s' => exact execute_writes (fun _ => rfl) (fun _ => rfl) h
  | error _ => exact .refl

theorem run_writes (rules : CoreRules) (s : StoreState) (transactions : List Transaction) :
    Writes rules s (s.run rules transactions) := by
  induction transactions generalizing s with
  | nil => exact .refl
  | cons transaction rest ih => exact (step_writes rules s transaction).trans (ih _)

/-- What every write keeps holds after any sequence of them. -/
theorem writes_keep {P : StoreState → Prop} (hkeep : ∀ s s', P s → Write rules s s' → P s')
    (h : Writes rules s s') (hs : P s) : P s' := by
  induction h with
  | refl => exact hs
  | tail _ hwrite ih => exact hkeep _ _ ih hwrite

/-- What holds of the empty store and is kept by every write holds of every
    reachable state. -/
theorem Reachable.induction {P : StoreState → Prop} (hinit : P .initial)
    (hkeep : ∀ s s', P s → Write rules s s' → P s') (h : Reachable rules s) : P s := by
  obtain ⟨transactions, rfl⟩ := h
  exact writes_keep hkeep (run_writes rules .initial transactions) hinit

/-- A transaction leads from a reachable state to a reachable state. -/
theorem Reachable.execute (h : Reachable rules s) (transaction : Transaction)
    (hexec : s.execute rules transaction = .ok s') : Reachable rules s' := by
  obtain ⟨transactions, rfl⟩ := h
  refine ⟨transactions ++ [transaction], ?_⟩
  rw [run, foldl_append, foldl_cons, foldl_nil, step]
  rw [run] at hexec
  rw [hexec]

theorem Reachable.after (h : Reachable rules s) (later : List Transaction) :
    Reachable rules (run rules s later) := by
  obtain ⟨transactions, rfl⟩ := h
  exact ⟨transactions ++ later, by rw [run, foldl_append]; rfl⟩

end StoreState

end OctaCity.Store
