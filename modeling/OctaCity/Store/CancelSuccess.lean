/-
  OctaCity.Store.CancelSuccess

  When the cancellation of an active Build succeeds.  A cancellation directs one
  running Lease for each Job it moves to cancelling and counts them.
-/
import OctaCity.Store.Coherence

namespace OctaCity.Store

open Domain Job Lib Orchestrator Pipeline

namespace StoreState

variable {rules : CoreRules} {s s' : StoreState}

/-! ## Statements that always succeed -/

theorem cancelledTo_nodup {jobs : List (JobId × JobState)} {decision : CancellationDecision}
    (hperm : decision.transitions.Perm (jobs.filterMap cancellationOf))
    (hnodup : (jobs.map (·.1)).Nodup) (state : JobState) : (cancelledTo decision state).Nodup := by
  have hids : (jobs.filterMap cancellationOf).map (·.jobId) |>.Sublist (jobs.map (·.1)) :=
    Table.filterMap_keys_sublist (fun job selected hsel => by
      unfold cancellationOf at hsel
      split at hsel
      · cases hsel
        rfl
      · cases hsel) jobs
  have hmoved : (decision.transitions.map (·.jobId)).Nodup :=
    (hperm.map (·.jobId)).nodup_iff.mpr (hnodup.sublist hids)
  exact hmoved.sublist (List.filter_sublist.map _)

variable {ids : List JobId}

theorem cancelJobs_isOk (hids : ids.Nodup)
    (hjobs : ∀ id ∈ ids, s.jobs.contains id = true) (state : JobState) :
    ∃ s', s.cancelJobs ids state = .ok s' := by
  unfold cancelJobs
  split
  · exact ⟨s, rfl⟩
  · have hcount := Table.countP_of_contains
      (p := fun row => row.id ∈ ids ∧ true) hids (by simp) hjobs
    exact ⟨_, updateListedJobs_eq_ok.mpr ⟨hcount, rfl⟩⟩

theorem requestLeaseCancellation_isOk
    (hcount : s.leases.rows.countP (fun row => row.jobId ∈ ids ∧ row.state.takesDirective) =
      ids.length) : ∃ s', s.requestLeaseCancellation ids = .ok s' := by
  unfold requestLeaseCancellation
  split
  · exact ⟨s, rfl⟩
  · rw [if_neg (not_not.mpr hcount)]
    exact ⟨_, rfl⟩

theorem insertCancellation_isOk (row : BuildCancellationRow)
    (hfresh : s.buildCancellations.contains row.buildId = false) :
    ∃ s', s.insertCancellation row = .ok s' := by
  obtain ⟨table, htable⟩ := Table.insert?_isSome s.buildCancellations row fun other hother hkey => by
    rw [← Bool.not_eq_true, Table.contains_iff] at hfresh
    exact hfresh ⟨other, hother, hkey⟩
  exact ⟨{ s with buildCancellations := table }, by rw [insertCancellation, htable]⟩

/-! ## Leases of an Attempt -/

/-- What cancelling an Attempt does to its Jobs, and to the Leases of cancelling
    Jobs in the whole store. -/
structure CancelsAttempt (s s' : StoreState) (attemptId : AttemptId) : Prop where
  idle : ∀ job ∈ s.attemptJobs attemptId, job.state = .blocked ∨ job.state = .ready →
    s'.stateOf job.id = some .cancelled ∧ s'.readyQueue.contains job.id = false
  held : ∀ job ∈ s.attemptJobs attemptId, job.state = .leased ∨ job.state = .running →
    s'.stateOf job.id = some .cancelling
  directed : ∀ lease ∈ s'.currentLeases, s'.stateOf lease.jobId = some .cancelling →
    lease.state = .cancellationRequested

/-- Current Leases of distinct Jobs are distinct, and each listed Job has one:
    all of them take a directive exactly when none was told to cancel before. -/
theorem Consistent.count_iff (h : Consistent s) (hids : ids.Nodup)
    (hheld : ∀ id ∈ ids, ∃ job ∈ s.jobs.rows, job.id = id ∧ isHeld job.state = true) :
    s.leases.rows.countP (fun row => row.jobId ∈ ids ∧ row.state.takesDirective) = ids.length ↔
      ∀ lease ∈ s.currentLeases, lease.jobId ∈ ids → lease.state ≠ .cancellationRequested := by
  have hcur : ∀ {row : LeaseRow}, row ∈ s.leases.rows → row.state.takesDirective = true →
      row ∈ s.currentLeases :=
    fun hrow htakes => mem_currentLeases.mpr ⟨hrow, takesDirective_isCurrent htakes⟩
  have hone : ∀ lease ∈ s.currentLeases, ∀ other ∈ s.currentLeases, lease.jobId ∈ ids →
      lease.jobId = other.jobId → lease = other := by
    intro lease hlease other hother hid hsame
    obtain ⟨job, hjob, hjobId, hstate⟩ := hheld _ hid
    obtain ⟨held, -, huniq⟩ := h.held job hjob hstate
    have hleft := huniq lease ⟨hlease, hjobId.symm⟩
    have hright := huniq other ⟨hother, hsame.symm.trans hjobId.symm⟩
    rw [hleft, hright]
  have hnodup : ((s.leases.rows.filter fun row => row.jobId ∈ ids ∧ row.state.takesDirective).map
      LeaseRow.jobId).Nodup := by
    refine List.Nodup.map_on (fun lease hlease other hother hsame => ?_)
      ((s.leases.keys_nodup.of_map _).filter _)
    rw [List.mem_filter, decide_eq_true_eq] at hlease hother
    exact hone lease (hcur hlease.1 hlease.2.2) other (hcur hother.1 hother.2.2)
      hlease.2.1 hsame
  rw [Table.countP_eq_length_iff hnodup (fun row _ hrow => (of_decide_eq_true hrow).1) hids]
  constructor
  · intro hall lease hlease hid hdirected
    obtain ⟨other, hother, hp, hsame⟩ := hall _ hid
    have htakes := (of_decide_eq_true hp).2
    rw [← hone lease hlease other (hcur hother htakes) hid hsame.symm, hdirected] at htakes
    cases htakes
  · intro hfree id hid
    obtain ⟨job, hjob, hjobId, hstate⟩ := hheld id hid
    obtain ⟨lease, ⟨hlease, hleaseJob⟩, -⟩ := h.held job hjob hstate
    have hlist : lease.jobId ∈ ids := by rw [hleaseJob, hjobId]; exact hid
    obtain ⟨hrow, hrun⟩ := mem_currentLeases.mp hlease
    have htakes : lease.state.takesDirective = true := by
      by_contra hnot
      exact hfree lease hlease hlist
        (LeaseState.eq_cancellationRequested hrun (Bool.of_not_eq_true hnot))
    exact ⟨lease, hrow, decide_eq_true ⟨hlist, htakes⟩, by rw [hleaseJob, hjobId]⟩

/-- No current Lease of the Attempt was told to cancel, by a forced drain. -/
def Undirected (s : StoreState) (attemptId : AttemptId) : Prop :=
  ∀ job ∈ s.attemptJobs attemptId, ∀ lease ∈ s.currentLeases, lease.jobId = job.id →
    lease.state ≠ .cancellationRequested

/-! ## The cancellation of an active Build -/

section Active

variable {request : CancelBuild} {build : BuildRow} {attempt : AttemptRow}

theorem Reachable.applyCancellation_isOk_iff (h : Reachable rules s)
    (hact : build.state.isActive = true)
    (hatt : s.latestAttempt request.buildId = some attempt)
    (hrun : attempt.state.isActive = true)
    (hnone : s.cancellationRequested request.buildId = false) :
    (∃ outcome s', s.applyCancellation request build = .ok (outcome, s')) ↔
      s.Undirected attempt.id := by
  have hcoh := h.coherent
  have hconsi := h.consistent
  obtain ⟨hrow, hbid, -⟩ := latestAttempt_eq_some hatt
  have hnodup :
      (((s.attemptJobs attempt.id).map fun row => (row.id, row.state)).map (·.1)).Nodup := by
    rw [List.map_map]
    exact attemptJobs_nodup attempt.id
  have hne : (s.attemptJobs attempt.id).map (fun row => (row.id, row.state)) ≠ [] := by
    simpa using (hcoh.graph _ attempt hrow).ne_nil
  obtain ⟨decision, hdec⟩ := cancelJobStates_isOk hact hrun hne hnodup
  have hperm := (cancelJobStates_eq_ok hdec).2.2.2.1
  have hcont : ∀ state, ∀ id ∈ cancelledTo decision state, s.jobs.contains id = true := by
    intro state id hid
    obtain ⟨job, hjob, rfl, -⟩ := (mem_cancelledTo hperm state id).mp hid
    exact (Table.contains_iff _ _).mpr ⟨job, (mem_attemptJobs.mp hjob).1, rfl⟩
  have hcing : ∀ id, id ∈ cancelledTo decision .cancelling ↔
      ∃ job ∈ s.attemptJobs attempt.id, job.id = id ∧
        (job.state = .leased ∨ job.state = .running) := by
    intro id
    simp only [mem_cancelledTo hperm, isUntargeted_cancelling]
  have hheld : ∀ id ∈ cancelledTo decision .cancelling,
      ∃ job ∈ s.jobs.rows, job.id = id ∧ isHeld job.state = true := by
    intro id hid
    obtain ⟨job, hjob, rfl, hstate⟩ := (hcing id).mp hid
    refine ⟨job, (mem_attemptJobs.mp hjob).1, rfl, ?_⟩
    obtain hstate | hstate := hstate <;> rw [hstate] <;> rfl
  have hids := cancelledTo_nodup hperm hnodup
  have hcount := hconsi.count_iff (hids .cancelling) hheld
  constructor
  · rintro ⟨outcome, s', happly⟩ job hjob lease hlease hsame
    obtain ⟨found, decision', hfound, hdec', hcnt, -⟩ := applyCancellation_eq_ok happly
    rw [hatt] at hfound
    cases hfound
    rw [hdec] at hdec'
    cases hdec'
    refine hcount.mp hcnt lease hlease ?_
    rw [hsame, hcing]
    have hstate : isHeld job.state = true := by
      by_contra hfree
      exact hconsi.free job (mem_attemptJobs.mp hjob).1 (Bool.of_not_eq_true hfree) lease hlease
        hsame
    -- without a recorded cancellation no Job of the Build is cancelling
    have hnot : job.state ≠ .cancelling := by
      intro hcancel
      have hof : s.buildOf job.id = some request.buildId := by
        rw [buildOf_eq_some]
        obtain ⟨hmem, hid⟩ := mem_attemptJobs.mp hjob
        exact ⟨job, attempt, Table.find?_of_mem _ hmem, by rw [hid]; exact hrow, hbid⟩
      have hreqst := hcoh.requested _ _ hof (by
        rw [attemptJobs_stateOf hjob, hcancel])
      rw [hnone] at hreqst
      cases hreqst
    refine ⟨job, hjob, rfl, ?_⟩
    cases hjobState : job.state <;> rw [hjobState] at hstate hnot <;>
      first | exact .inl rfl | exact .inr rfl | exact absurd rfl hnot | cases hstate
  · intro hfree
    have hcnt := hcount.mpr fun lease hlease hid => by
      obtain ⟨job, hjob, hsame, -⟩ := (hcing _).mp hid
      exact hfree job hjob lease hlease hsame.symm
    obtain ⟨s₁, hs₁⟩ := cancelJobs_isOk (hids .cancelled) (hcont .cancelled) .cancelled
    have hcontains₁ : ∀ id ∈ cancelledTo decision .cancelling, s₁.jobs.contains id = true := by
      intro id hid
      rw [cancelJobs_eq_ok hs₁, updateJobs, Table.updateWhere, Table.mapRows_contains]
      exact hcont _ id hid
    obtain ⟨s₂, hs₂⟩ := cancelJobs_isOk (hids .cancelling) hcontains₁ .cancelling
    have hlses : (s₂.dequeue (cancelledTo decision .cancelled)).leases = s.leases := by
      rw [cancelJobs_eq_ok hs₂, cancelJobs_eq_ok hs₁]
      rfl
    obtain ⟨s₃, hs₃⟩ := requestLeaseCancellation_isOk
      (s := s₂.dequeue (cancelledTo decision .cancelled)) (by rw [hlses]; exact hcnt)
    have hcancellations : s₃.buildCancellations = s.buildCancellations := by
      rw [requestLeaseCancellation_eq_ok hs₃, cancelJobs_eq_ok hs₂, cancelJobs_eq_ok hs₁]
      rfl
    let row : BuildCancellationRow :=
      ⟨request.buildId, attempt.id, cancelledTo decision .cancelled,
        cancelledTo decision .cancelling, decision.attemptState, decision.buildState⟩
    obtain ⟨s₄, hs₄⟩ := insertCancellation_isOk
      (s := (s₃.setAttemptState attempt.id decision.attemptState).setBuildState request.buildId
        decision.buildState) row (by
          change s₃.buildCancellations.contains request.buildId = false
          rw [hcancellations]
          exact hnone)
    refine ⟨row.outcome .applied, s₄, bind_eq_ok.mpr ⟨attempt, okOr_eq_ok.mpr hatt, ?_⟩⟩
    refine bind_eq_ok.mpr ⟨decision, mapError_eq_ok.mpr hdec, ?_⟩
    refine bind_eq_ok.mpr ⟨s₁, hs₁, bind_eq_ok.mpr ⟨s₂, hs₂, ?_⟩⟩
    exact bind_eq_ok.mpr ⟨s₃, hs₃, bind_eq_ok.mpr ⟨s₄, hs₄, rfl⟩⟩

/-- What an applied cancellation did to the Jobs of the newest Attempt. -/
theorem applyCancellation_cancels {outcome : CancellationDisposition}
    (hatt : s.latestAttempt request.buildId = some attempt)
    (happly : s.applyCancellation request build = .ok (outcome, s'))
    (hdirected : ∀ lease ∈ s'.currentLeases, s'.stateOf lease.jobId = some .cancelling →
      lease.state = .cancellationRequested) : CancelsAttempt s s' attempt.id := by
  obtain ⟨found, decision, hfound, hdec, -, hins⟩ := applyCancellation_eq_ok happly
  rw [hatt] at hfound
  cases hfound
  have hperm := (cancelJobStates_eq_ok hdec).2.2.2.1
  obtain ⟨hother, -, -⟩ := insertCancellation_eq_ok hins
  rw [aggregate_eq, propagate_eq] at hother
  have hedits : Edits (propagated (cancelledTo decision .cancelled)
      (cancelledTo decision .cancelling)) s.jobs s'.jobs := by
    rw [hother]
    exact propagate_edits _ _
  have hstate : ∀ job ∈ s.attemptJobs attempt.id,
      s'.stateOf job.id = some (afterRequest job.state) := by
    intro job hjob
    rw [hedits.stateOf, attemptJobs_stateOf hjob, Option.map_some]
    refine congrArg some (propagated_eq_afterRequest ⟨fun id => ?_, fun id => ?_⟩ hjob)
    · simp only [mem_cancelledTo hperm, isUntargeted_cancelled]
    · simp only [mem_cancelledTo hperm, isUntargeted_cancelling]
  have hqueue : s'.readyQueue = (s.dequeue (cancelledTo decision .cancelled)).readyQueue := by
    rw [hother]
    rfl
  refine ⟨fun job hjob hidle => ⟨?_, ?_⟩, fun job hjob hheld => ?_, hdirected⟩
  · rw [hstate job hjob]
    obtain hidle | hidle := hidle <;> rw [hidle] <;> rfl
  · rw [hqueue, ← Bool.not_eq_true, dequeue_contains]
    exact fun hqueued => hqueued.2 ((mem_cancelledTo hperm _ _).mpr
      ⟨job, hjob, rfl, isUntargeted_cancelled.mpr hidle⟩)
  · rw [hstate job hjob]
    obtain hheld | hheld := hheld <;> rw [hheld] <;> rfl

/-- An accepted new cancellation of an active Build succeeds exactly when none
    of its current Leases was told to cancel before. -/
theorem Reachable.cancelBuild_iff (h : Reachable rules s) {owner : Except StoreError Unit}
    {observedAt : Timestamp} (hauth : request.validateAuthority rules observedAt = .ok ())
    (hfresh : beginMutation s.idempotency.cancelBuild request.key request.fingerprint .build =
      .ok none) (howner : s.verifyCancellationAuthority owner request = .ok ())
    (hbuild : s.builds.find? request.buildId = some build) (hact : build.state.isActive = true)
    (hatt : s.latestAttempt request.buildId = some attempt)
    (hrun : attempt.state.isActive = true)
    (hnone : s.cancellationRequested request.buildId = false) :
    (∃ outcome s', s.cancelBuild rules owner observedAt request = .ok (outcome, s') ∧
      CancelsAttempt s s' attempt.id) ↔ s.Undirected attempt.id := by
  rw [← h.applyCancellation_isOk_iff hact hatt hrun hnone]
  have hrow : s.buildCancellations.find? request.buildId = none := by
    rw [cancellationRequested, Table.contains_eq_isSome] at hnone
    exact Option.isNone_iff_eq_none.mp (Option.isSome_eq_false_iff.mp hnone)
  have hcancel : s.cancelBuild rules owner observedAt request =
      s.applyCancellation request build >>= fun applied =>
        .ok (applied.1, applied.2.commitCancellation request applied.1) := by
    unfold cancelBuild cancelFresh
    rw [hauth, hfresh, howner, hbuild, okOr_some, hrow]
    rfl
  constructor
  · rintro ⟨outcome, s', hok, -⟩
    rw [hcancel] at hok
    obtain ⟨applied, happly, -⟩ := bind_eq_ok.mp hok
    exact ⟨applied.1, applied.2, happly⟩
  · rintro ⟨outcome, s₁, happly⟩
    have hok : s.cancelBuild rules owner observedAt request =
        .ok (outcome, s₁.commitCancellation request outcome) := by
      rw [hcancel, happly]
      rfl
    have hreach : Reachable rules (s₁.commitCancellation request outcome) :=
      h.execute (.cancel owner observedAt request) (by
        rw [StoreState.execute, hok]
        rfl)
    refine ⟨outcome, _, hok, ?_⟩
    have hcanc : CancelsAttempt s s₁ attempt.id :=
      applyCancellation_cancels hatt happly fun lease hlease =>
        hreach.coherent.directed _ lease
          (Table.find?_of_mem _ (mem_currentLeases.mp hlease).1) (mem_currentLeases.mp hlease).2
    exact ⟨hcanc.idle, hcanc.held, hcanc.directed⟩

end Active

namespace Sample

def forcedDrain : DrainAgent where
  agentId := ⟨1⟩
  expectedVersion := 1
  mode := .forced
  idempotencyKey := ⟨"management", "drain"⟩
  requestedAt := instant 2

def cancellation : CancelBuild where
  buildId := ⟨1⟩
  authority := .management ⟨"management", "cancel"⟩
  requestedAt := instant 3

/-- The claimed Job after a forced drain of its Agent. -/
def drained : StoreState := run acceptAll .initial (claimedRun ++ [.drainAgent forcedDrain])

/-- A forced drain of the Agent that runs the only Job of a Build refuses the
    cancellation of the Build. -/
theorem drained_cancelBuild : Reachable acceptAll drained ∧
    (drained.builds.find? ⟨1⟩).map (·.state) = some .running ∧
    (drained.latestAttempt ⟨1⟩).map (·.state) = some .running ∧
    drained.cancellationRequested ⟨1⟩ = false ∧
    drained.cancelBuild acceptAll (.ok ()) (instant 3) cancellation = .error .unavailable := by
  refine ⟨⟨_, rfl⟩, by decide +kernel, by decide +kernel, by decide +kernel, ?_⟩
  exact errorOf_eq_some.mp (by decide +kernel)

/-- Without the drain the same cancellation reaches the Job. -/
theorem claimed_cancelBuild : ∃ outcome s',
    claimed.cancelBuild acceptAll (.ok ()) (instant 3) cancellation = .ok (outcome, s') ∧
      CancelsAttempt claimed s' ⟨1⟩ := by
  have hbuild : ∃ build, claimed.builds.find? ⟨1⟩ = some build ∧ build.state.isActive = true := by
    decide +kernel
  have hatt : ∃ attempt, claimed.latestAttempt ⟨1⟩ = some attempt ∧ attempt.id = ⟨1⟩ ∧
      attempt.state.isActive = true := by decide +kernel
  obtain ⟨build, hbuild, hact⟩ := hbuild
  obtain ⟨attempt, hatt, hid, hrun⟩ := hatt
  rw [← hid]
  refine (Reachable.cancelBuild_iff (s := claimed) ⟨claimedRun, rfl⟩ rfl ?_ rfl hbuild hact
    hatt hrun ?_).mpr ?_
  · exact beginMutation_eq_none.mpr (by decide +kernel)
  · decide +kernel
  · intro job _ lease hlease _
    have hall : ∀ lease ∈ claimed.currentLeases, lease.state ≠ .cancellationRequested := by
      decide +kernel
    exact hall lease hlease

end Sample

end StoreState

end OctaCity.Store
