/-
  OctaCity.Store.CompleteSuccess

  When the holder of a Lease can finish its Job.  Every statement of a completion
  is shown to succeed in a reachable store: the graph of the Attempt is valid, a
  recorded cancellation has reached its Jobs, and the Jobs that become ready were
  not queued.
-/
import OctaCity.Store.CompletionFacts
import OctaCity.Store.Coherence
import OctaCity.Store.EventLog

namespace OctaCity.Store

open Domain Job Lib List Orchestrator Pipeline Table

variable {row : JobRow}

namespace StoreState

variable {rules : CoreRules} {s s' : StoreState}

/-! ## Statements that succeed -/

variable {ids : List JobId} {attempt : AttemptRow}

theorem updateBlockedJobs_isOk (hids : ids.Nodup)
    (hblk : ∀ id ∈ ids, s.stateOf id = some .blocked) (state : JobState) :
    ∃ s', s.updateBlockedJobs ids state = .ok s' := by
  unfold updateBlockedJobs
  split
  · exact ⟨s, rfl⟩
  · refine ⟨_, updateListedJobs_eq_ok.mpr ⟨?_, rfl⟩⟩
    refine (countP_eq_length_iff (s.jobs.keys_nodup.sublist (filter_sublist.map _))
      (fun row _ hrow => (of_decide_eq_true hrow).1) hids).mpr fun id hid => ?_
    obtain ⟨row, hrow, hstate⟩ := stateOf_eq_some.mp (hblk id hid)
    have hkey : row.id = id := key_of_find? hrow
    exact ⟨row, mem_of_find? hrow, by simp [hkey, hid, hstate], hkey⟩

variable {issuedAt transitionedAt : Timestamp}

/-- A signature covers what a change of the row's state leaves alone. -/
theorem signature_follows {row' : JobRow} (h : row.Follows row')
    (hatts : s'.attempts = s.attempts) :
    s'.signature rules issuedAt row' = s.signature rules issuedAt row := by
  rw [signature, signature, h.attemptId, h.jobSpecTemplate, h.id, hatts]

theorem signReadyJobs_isOk (rules : CoreRules) (issuedAt : Timestamp) (hids : ids.Nodup)
    (hjobs : ∀ id ∈ ids, s.jobs.contains id = true)
    (hsigned : ∀ row ∈ s.jobs.rows, row.id ∈ ids → (s.signature rules issuedAt row).isSome = true) :
    ∃ s', s.signReadyJobs rules ids issuedAt = .ok s' := by
  unfold signReadyJobs
  split
  · exact ⟨s, rfl⟩
  · have hcount := countP_of_contains (p := fun row => row.id ∈ ids) hids (by simp) hjobs
    rw [if_neg (not_not.mpr hcount), if_neg]
    · exact ⟨_, rfl⟩
    · rw [any_eq_true]
      rintro ⟨row, hrow, hunsig⟩
      obtain ⟨hid, hnone⟩ := of_decide_eq_true hunsig
      have hsome := hsigned row hrow hid
      rw [Option.isNone_iff_eq_none] at hnone
      rw [hnone] at hsome
      cases hsome

theorem enqueue_isOk (hids : ids.Nodup) (hloc : ∀ id ∈ ids, ∃ path, s.locate id = some path)
    (hfree : ∀ id ∈ ids, s.readyQueue.contains id = false) : ∃ s', s.enqueue ids = .ok s' := by
  have hjobIds : ((s.queueEntries ids).map (·.jobId)).Perm ids := by
    rw [queueEntries_jobIds]
    refine (perm_ext_iff_of_nodup ?_ hids).mpr fun id => ?_
    · exact (s.jobs.keys_nodup.sublist (filter_sublist.map _)).sublist
        (filterMap_keys_sublist (fun row path hpath => locate_job_id hpath) _)
    · rw [mem_map]
      constructor
      · rintro ⟨path, hpath, rfl⟩
        obtain ⟨row, hrow, hlocate⟩ := mem_filterMap.mp hpath
        rw [locate_job_id hlocate]
        exact of_decide_eq_true (mem_filter.mp hrow).2
      · intro hid
        obtain ⟨path, hpath⟩ := hloc id hid
        have hkey := locate_job_id hpath
        refine ⟨path, mem_filterMap.mpr ⟨path.job, mem_filter.mpr ⟨?_, ?_⟩, ?_⟩, hkey⟩
        · exact mem_of_find? (locate_eq_some.mp hpath).1
        · simpa [hkey] using hid
        · rw [hkey]
          exact hpath
  have hnodup : ((s.queueEntries ids ++ s.readyQueue.rows).map ReadyQueueEntry.jobId).Nodup := by
    rw [map_append, nodup_append]
    refine ⟨hjobIds.nodup_iff.mpr hids, s.readyQueue.keys_nodup, fun id hid other hother heq => ?_⟩
    subst heq
    obtain ⟨entry, hentry, hkey⟩ := mem_map.mp hother
    have hqueued := (s.readyQueue.contains_iff id).mpr ⟨entry, hentry, hkey⟩
    rw [hfree id (hjobIds.mem_iff.mp hid)] at hqueued
    cases hqueued
  obtain ⟨readyQueue, hins⟩ :=
    insertAll_isOk (fun _ => StoreError.duplicate .job) _ s.readyQueue hnodup
  have hlen : (s.queueEntries ids).length = ids.length := by
    rw [← hjobIds.length_eq, length_map]
  refine ⟨{ s with readyQueue, enqueueOrder := s.enqueueOrder + (s.queueEntries ids).length },
    bind_eq_ok.mpr ⟨readyQueue, hins, ?_⟩⟩
  rw [if_neg (not_not.mpr hlen)]

/-- A Job found in the store is found after its row was edited. -/
theorem Edits.locate {next : JobId → JobState → JobState} (h : Edits next s.jobs s'.jobs)
    (hatts : s'.attempts = s.attempts) (hblds : s'.builds = s.builds) {id : JobId}
    {path : JobPath} (hpath : s.locate id = some path) : ∃ path', s'.locate id = some path' := by
  obtain ⟨hjob, hatt, hbuild⟩ := locate_eq_some.mp hpath
  obtain ⟨job, hjob', hfol, -⟩ := h.find? hjob
  refine ⟨⟨job, path.attempt, path.build⟩, locate_eq_some.mpr ⟨hjob', ?_, ?_⟩⟩
  · rw [hatts, hfol.attemptId]
    exact hatt
  · rw [hblds]
    exact hbuild

/-- Blocked Jobs that can be unblocked: each is listed once, and those that
    become ready are found and not queued. -/
structure Unblockable (s : StoreState) (ready skipped : List JobId) : Prop where
  once : ready.Nodup ∧ skipped.Nodup
  disjoint : ∀ id ∈ skipped, id ∉ ready
  blocked : ∀ id, id ∈ ready ∨ id ∈ skipped → s.stateOf id = some .blocked
  located : ∀ id ∈ ready, ∃ path, s.locate id = some path
  free : ∀ id ∈ ready, s.readyQueue.contains id = false

variable {ready skipped : List JobId}

section

variable (h : Unblockable s ready skipped)

include h

/-- The updates of the Job states before the ready Jobs are signed. -/
theorem Unblockable.updates_isOk : ∃ s₁ s₂,
    s.updateBlockedJobs ready .ready = .ok s₁ ∧ s₁.updateBlockedJobs skipped .skipped = .ok s₂ ∧
      s₂ = { s with jobs := s₂.jobs } ∧ ∃ next, Edits next s.jobs s₂.jobs := by
  obtain ⟨s₁, h₁⟩ := updateBlockedJobs_isOk h.once.1 (fun id hid => h.blocked id (.inl hid)) .ready
  obtain ⟨hother₁, hedits₁, -⟩ := updateBlockedJobs_eq_ok h₁
  have hstill : ∀ id ∈ skipped, s₁.stateOf id = some .blocked := by
    intro id hid
    rw [hedits₁.stateOf, h.blocked id (.inr hid), Option.map_some]
    simp [h.disjoint id hid]
  obtain ⟨s₂, h₂⟩ := updateBlockedJobs_isOk h.once.2 hstill .skipped
  obtain ⟨hother₂, hedits₂, -⟩ := updateBlockedJobs_eq_ok h₂
  exact ⟨s₁, s₂, h₁, h₂, by rw [hother₂, hother₁], _, hedits₁.trans hedits₂⟩

/-- Blocked Jobs become ready or are skipped when the ready ones can be signed. -/
theorem Unblockable.unblock_isOk (rules : CoreRules) (issuedAt : Timestamp)
    (hsigned : ∀ row ∈ s.jobs.rows, row.id ∈ ready →
      (s.signature rules issuedAt row).isSome = true) :
    ∃ s', unblock rules s ready skipped issuedAt = .ok s' := by
  obtain ⟨s₁, s₂, h₁, h₂, hother, next, hedits⟩ := h.updates_isOk
  have hatts : s₂.attempts = s.attempts := by rw [hother]
  obtain ⟨s₃, h₃⟩ := signReadyJobs_isOk (s := s₂) rules issuedAt h.once.1
    (fun id hid => by
      obtain ⟨path, hpath⟩ := h.located id hid
      obtain ⟨job, hjob, -⟩ := hedits.find? (locate_eq_some.mp hpath).1
      rw [contains_eq_isSome, hjob]
      rfl)
    (fun row hrow hid => by
      obtain ⟨f, hf, hjobs, hfol⟩ := hedits
      rw [hjobs, mapRows_rows] at hrow
      obtain ⟨before, hbef, rfl⟩ := mem_map.mp hrow
      rw [signature_follows (hfol before).1 hatts]
      exact hsigned before hbef (by rw [← (hfol before).1.id]; exact hid))
  obtain ⟨hother₃, hedits₃⟩ := signReadyJobs_eq_ok h₃
  have henq : ∃ s', s₃.enqueueReady ready = .ok s' := by
    unfold enqueueReady
    split
    · exact ⟨s₃, rfl⟩
    · refine enqueue_isOk h.once.1 (fun id hid => ?_) fun id hid => ?_
      · obtain ⟨path, hpath⟩ := h.located id hid
        exact (hedits.trans hedits₃).locate (by rw [hother₃, hatts])
          (by rw [hother₃, hother]) hpath
      · rw [hother₃, hother]
        exact h.free id hid
  obtain ⟨s', henq⟩ := henq
  exact ⟨s', bind_eq_ok.mpr ⟨s₁, h₁, bind_eq_ok.mpr ⟨s₂, h₂, bind_eq_ok.mpr ⟨s₃, h₃, henq⟩⟩⟩⟩

/-- A ready Job that can not be signed fails the whole transaction. -/
theorem Unblockable.unblock_unsigned (hrow : row ∈ s.jobs.rows) (hready : row.id ∈ ready)
    (hunsig : s.signature rules issuedAt row = none) :
    unblock rules s ready skipped issuedAt = .error .unavailable := by
  obtain ⟨s₁, s₂, h₁, h₂, hother, next, f, hf, hjobs, hfol⟩ := h.updates_isOk
  have hatts : s₂.attempts = s.attempts := by rw [hother]
  have hsign : s₂.signReadyJobs rules ready issuedAt = .error .unavailable := by
    have hany : s₂.jobs.rows.any fun row =>
        row.id ∈ ready ∧ (s₂.signature rules issuedAt row).isNone := by
      rw [any_eq_true]
      refine ⟨f row, ?_, decide_eq_true ⟨?_, ?_⟩⟩
      · rw [hjobs, mapRows_rows]
        exact mem_map_of_mem hrow
      · rw [(hfol row).1.id]
        exact hready
      · rw [signature_follows (hfol row).1 hatts, hunsig]
        rfl
    unfold signReadyJobs
    rw [if_neg (by rw [List.isEmpty_iff]; exact List.ne_nil_of_mem hready), if_pos hany]
    split <;> rfl
  unfold unblock
  simp only [h₁, h₂, hsign, bind, Except.bind]

end

theorem insertCompletion_isOk {row : JobCompletionRow} (hwell : row.wellFormed = true)
    (hunused : ∀ other ∈ s.jobCompletions.rows, other.completionId ≠ row.completionId)
    (hlease : ∀ other ∈ s.jobCompletions.rows, other.leaseId ≠ row.leaseId)
    (hjob : ∀ other ∈ s.jobCompletions.rows, other.jobId ≠ row.jobId) :
    ∃ s', s.insertCompletion row = .ok s' := by
  obtain ⟨table, htable⟩ := Table.insert?_isSome s.jobCompletions row hjob
  refine ⟨{ s with jobCompletions := table }, ?_⟩
  unfold insertCompletion
  rw [hwell, htable, if_neg (by simp), if_neg]
  rw [any_eq_true]
  rintro ⟨other, hother, hsame⟩
  obtain hid | hid := of_decide_eq_true hsame
  · exact hunused other hother hid
  · exact hlease other hother hid

/-! ## Reconciliation -/

/-- The Jobs of an Attempt its reconciliation makes ready. -/
def readied (s : StoreState) (attemptId : AttemptId) (buildId : BuildId) : List JobId :=
  match s.reconcileAttempt attemptId (s.cancellationRequested buildId) with
  | .ok decision => transitionsTo decision .ready
  | .error _ => []

theorem transitionsTo_nodup {decision : OrchestrationDecision}
    (h : (decision.jobTransitions.map (·.jobId)).Nodup) (state : JobState) :
    (transitionsTo decision state).Nodup :=
  h.sublist (filter_sublist.map _)

theorem Coherent.reconcileAttempt_isOk (h : Coherent s)
    (hatt : s.attempts.find? attempt.id = some attempt) : ∃ nodes decision final,
      s.attemptGraph attempt.id = .ok nodes ∧
      s.reconcileAttempt attempt.id (s.cancellationRequested attempt.buildId) = .ok decision ∧
      reconcile nodes (s.cancellationRequested attempt.buildId) = .ok decision ∧
      Decides nodes (s.cancellationRequested attempt.buildId) decision final := by
  obtain ⟨nodes, hnodes, hvalid⟩ := h.graph _ attempt hatt
  have htgtd : s.cancellationRequested attempt.buildId = true →
      ∀ node ∈ nodes, isUntargeted node.state = false := by
    intro hcanc node hnode
    obtain ⟨row, hrow, hrowNode⟩ := forall₂_exists_left (mapM_eq_ok.mp hnodes) hnode
    obtain ⟨hmem, hid⟩ := mem_attemptJobs.mp hrow
    rw [(node_eq_ok hrowNode).2]
    refine h.targeted row.id attempt.buildId row.state ?_ hcanc (attemptJobs_stateOf hrow)
    rw [buildOf_eq_some]
    exact ⟨row, attempt, Table.find?_of_mem _ hmem, by rw [hid]; exact hatt, rfl⟩
  obtain ⟨decision, hdec⟩ := reconcile_isOk hvalid htgtd
  obtain ⟨final, hdecs⟩ := reconcile_eq_ok hdec
  refine ⟨nodes, decision, final, hnodes, mapError_eq_ok.mpr ?_, hdec, hdecs⟩
  refine bind_eq_ok.mpr ⟨nodes, hnodes, ?_⟩
  cases hcanc : s.cancellationRequested attempt.buildId with
  | true => rwa [hcanc] at hdec
  | false => rwa [hcanc] at hdec

section

variable (h : Coherent s) (hlink : Linked s) (hsound : s.dispatch.Sound)
  (hatt : s.attempts.find? attempt.id = some attempt)

include h hlink hsound hatt

/-- The Jobs a reconciliation moves can be unblocked. -/
theorem Coherent.reconcileAttempt_unblockable : ∃ decision,
      s.reconcileAttempt attempt.id (s.cancellationRequested attempt.buildId) = .ok decision ∧
      s.readied attempt.id attempt.buildId = transitionsTo decision .ready ∧
      Unblockable s (transitionsTo decision .ready) (transitionsTo decision .skipped) := by
  obtain ⟨nodes, decision, final, hnodes, hrec, -, hdecs⟩ :=
    h.reconcileAttempt_isOk hatt
  have hready : s.readied attempt.id attempt.buildId = transitionsTo decision .ready := by
    rw [readied, hrec]
  -- every Job the decision moves is a blocked one of the Attempt
  have hmoved : ∀ {id : JobId} {state : JobState}, id ∈ transitionsTo decision state →
      ∃ row, s.jobs.find? id = some row ∧ row.state = .blocked ∧ final id = state := by
    intro id state hid
    obtain ⟨node, hnode, heq, hblk, -⟩ :=
      (hdecs.mem_iff _).mp (mem_transitionsTo.mp hid)
    obtain ⟨rfl, rfl⟩ := JobGraphTransition.mk.inj heq
    obtain ⟨row, hrow, hrowNode⟩ := forall₂_exists_left (mapM_eq_ok.mp hnodes) hnode
    obtain ⟨hid, hstate⟩ := node_eq_ok hrowNode
    rw [hid]
    exact ⟨row, Table.find?_of_mem _ (mem_attemptJobs.mp hrow).1, by rw [← hstate, hblk], rfl⟩
  have hblk : ∀ {id : JobId} {state : JobState}, id ∈ transitionsTo decision state →
      s.stateOf id = some .blocked := by
    intro id state hid
    obtain ⟨row, hrow, hstate, -⟩ := hmoved hid
    exact stateOf_eq_some.mpr ⟨row, hrow, hstate⟩
  refine ⟨decision, hrec, hready, ⟨transitionsTo_nodup hdecs.nodup .ready,
    transitionsTo_nodup hdecs.nodup .skipped⟩, fun id hskipped hready => ?_,
    fun id hid => hid.elim hblk hblk, fun id hid => ?_, fun id hid => ?_⟩
  · obtain ⟨-, -, -, hfinal⟩ := hmoved hskipped
    obtain ⟨-, -, -, hfinal'⟩ := hmoved hready
    rw [hfinal] at hfinal'
    cases hfinal'
  · obtain ⟨row, hrow, -⟩ := hmoved hid
    obtain ⟨path, hpath, -⟩ := hlink.locate hrow
    exact ⟨path, hpath⟩
  · -- only ready Jobs are queued
    rw [← Bool.not_eq_true]
    intro hqueued
    have hstate : s.stateOf id = some .ready := (Set.ext_iff.mp hsound.queued_eq id).mp hqueued
    rw [hblk hid] at hstate
    cases hstate

/-- A coherent store reconciles an Attempt whose ready Jobs can be signed. -/
theorem Coherent.reconcileAndApply_isOk
    (hsigned : ∀ row ∈ s.jobs.rows, row.id ∈ s.readied attempt.id attempt.buildId →
      (s.signature rules transitionedAt row).isSome = true) :
    ∃ applied s', s.reconcileAndApply rules attempt.id attempt.buildId transitionedAt =
      .ok (applied, s') := by
  obtain ⟨decision, hrec, hready, hunblockable⟩ :=
    h.reconcileAttempt_unblockable hlink hsound hatt
  obtain ⟨s₁, hunblk⟩ := hunblockable.unblock_isOk rules transitionedAt
    fun row hrow hid => hsigned row hrow (by rw [hready]; exact hid)
  obtain ⟨s₂, h₂, hunblk⟩ := bind_eq_ok.mp hunblk
  obtain ⟨s₃, h₃, hunblk⟩ := bind_eq_ok.mp hunblk
  obtain ⟨s₄, h₄, h₅⟩ := bind_eq_ok.mp hunblk
  exact ⟨_, _, bind_eq_ok.mpr ⟨decision, hrec, bind_eq_ok.mpr ⟨s₂, h₂,
    bind_eq_ok.mpr ⟨s₃, h₃, bind_eq_ok.mpr ⟨s₄, h₄, bind_eq_ok.mpr ⟨s₁, h₅, rfl⟩⟩⟩⟩⟩⟩

/-- A ready Job that can not be signed fails the reconciliation. -/
theorem Coherent.reconcileAndApply_unsigned (hrow : row ∈ s.jobs.rows)
    (hreadied : row.id ∈ s.readied attempt.id attempt.buildId)
    (hunsig : s.signature rules transitionedAt row = none) :
    s.reconcileAndApply rules attempt.id attempt.buildId transitionedAt = .error .unavailable := by
  obtain ⟨decision, hrec, hready, hunblockable⟩ :=
    h.reconcileAttempt_unblockable hlink hsound hatt
  rw [hready] at hreadied
  have hunblk := hunblockable.unblock_unsigned hrow hreadied hunsig
  have hsteps : s.reconcileAndApply rules attempt.id attempt.buildId transitionedAt =
      unblock rules s (transitionsTo decision .ready) (transitionsTo decision .skipped)
        transitionedAt >>= fun s' =>
          .ok (⟨transitionsTo decision .ready, transitionsTo decision .skipped,
            decision.attemptState, decision.buildState⟩,
            (s'.setAttemptState attempt.id decision.attemptState).setBuildState attempt.buildId
              decision.buildState) := by
    unfold reconcileAndApply unblock
    rw [hrec]
    simp only [bind_assoc]
    rfl
  rw [hsteps, hunblk]
  rfl

end

/-! ## The holder of a Lease -/

/-- A request of the holder of a current Lease: before the deadline, with the
    agent, the registration epoch and the fence it was granted under. -/
structure CurrentHolder (s : StoreState) (now observedAt : Timestamp) (access : LeaseAccess)
    (lease : LeaseRow) (path : JobPath) (registration : RegistrationRow) : Prop where
  found : s.leases.find? access.leaseId = some lease
  located : s.locate lease.jobId = some path
  enrolled : s.registrations.find? lease.registrationId = some registration
  current : lease.state.isCurrent = true
  unexpired : now < lease.expiresAt ∧ observedAt < lease.expiresAt
  unrevoked : registration.revoked = false
  registered : observedAt < registration.expiresAt
  agent : registration.agentId = access.agentId
  epoch : (lease.registrationEpoch : Nat) = access.registrationEpoch
  fence : lease.fence = access.fence

variable {now observedAt : Timestamp} {access : LeaseAccess} {lease : LeaseRow} {path : JobPath}
  {registration : RegistrationRow}

theorem number_isOk {value : Nat} (hvalue : value < 2 ^ 63) (operation : StoreOperation) :
    number value operation = .ok ⟨value, hvalue⟩ := by
  rw [number, dif_pos hvalue]

/-- The holder of a Lease is let in, whatever the state of the Lease is. -/
theorem Linked.loadLease_isOk (h : Linked s) (hlease : s.leases.find? access.leaseId = some lease)
    (hpath : s.locate lease.jobId = some path)
    (hreg : s.registrations.find? lease.registrationId = some registration)
    (hagent : registration.agentId = access.agentId)
    (hepoch : (lease.registrationEpoch : Nat) = access.registrationEpoch)
    (hfence : lease.fence = access.fence) (now : Timestamp) (operation : StoreOperation) :
    ∃ agent, s.loadLease now access operation =
      .ok ⟨lease, path, registration, agent, lease.expiresAt ≤ now⟩ := by
  have hknown := h.agent _ _ hreg
  rw [contains_eq_isSome, Option.isSome_iff_exists] at hknown
  obtain ⟨agent, hfound⟩ := hknown
  have hbound : access.registrationEpoch < 2 ^ 63 := by
    rw [← hepoch]
    exact lease.registrationEpoch.isLt
  have hjoin : s.joinLease now access.leaseId =
      some ⟨lease, path, registration, agent, lease.expiresAt ≤ now⟩ := by
    unfold joinLease
    rw [hlease, Option.bind_eq_bind, Option.bind_some, hpath, Option.bind_eq_bind,
      Option.bind_some, hreg, Option.bind_eq_bind, Option.bind_some, hfound]
    rfl
  refine ⟨agent, bind_eq_ok.mpr ⟨_, number_isOk hbound operation, bind_eq_ok.mpr
    ⟨_, okOr_eq_ok.mpr hjoin, if_neg ?_⟩⟩⟩
  have hid : agent.id = access.agentId := (key_of_find? hfound).trans hagent
  have hnum : lease.registrationEpoch = ⟨access.registrationEpoch, hbound⟩ := Fin.ext hepoch
  simp [hid, hnum, hfence]

theorem CurrentHolder.requireCurrent (h : CurrentHolder s now observedAt access lease path
    registration) (agent : AgentRow) :
    requireCurrent ⟨lease, path, registration, agent, lease.expiresAt ≤ now⟩ access observedAt =
      .ok () :=
  requireCurrent_eq_ok.mpr ⟨h.current, decide_eq_false (not_le.mpr h.unexpired.1), h.unexpired.2,
    h.unrevoked, h.registered⟩

theorem Reachable.isHeld (h : Reachable rules s) {leaseId : LeaseId}
    (hlease : s.leases.find? leaseId = some lease) (hcur : lease.state.isCurrent = true)
    (hpath : s.locate lease.jobId = some path) : isHeld path.job.state = true := by
  by_contra hfree
  have hjob := (locate_eq_some.mp hpath).1
  exact h.consistent.free path.job (mem_of_find? hjob) (Bool.of_not_eq_true hfree) lease
    (mem_currentLeases.mpr ⟨mem_of_find? hlease, hcur⟩) (key_of_find? hjob).symm

end StoreState

theorem completeJobState_isOk {current : JobState} (hheld : isHeld current = true)
    (kind : JobCompletionKind) : ∃ terminal, completeJobState current kind = .ok terminal ∧
      terminal.isTerminal = true ∧
      (kind ≠ .timedOut → jobState terminal = completionKind kind) := by
  cases current <;> cases hheld <;> cases kind <;>
    exact ⟨_, rfl, rfl, fun h => by first | rfl | exact absurd rfl h⟩

theorem parseFailureClass_failureClass (kind : JobCompletionKind) :
    parseFailureClass (failureClass kind) = .ok kind.failureClass := by
  cases kind with
  | failed failure => cases failure <;> rfl
  | succeeded | timedOut | cancelled => rfl

namespace StoreState

variable {rules : CoreRules} {s s' : StoreState} {now : Timestamp} {lease : LeaseRow}
  {path : JobPath} {registration : RegistrationRow} {request : JobCompletion}
  {outcome : CompletionDisposition}

/-! ## The completion -/

/-- The id of a completion under which nothing was completed or recorded. -/
def CompletionIdUnused (s : StoreState) (completionId : String) : Prop :=
  (∀ row ∈ s.jobCompletions.rows, row.completionId ≠ completionId) ∧
    ∀ origin, ∀ record ∈ s.completionRecords origin, record.key ≠ completionId

/-- What a completion makes of the Job, its Lease and its Attempt: the graph is
    settled from the terminal state on, and the ready Jobs are queued. -/
structure Completes (s s' : StoreState) (lease : LeaseRow) (path : JobPath) (terminal : JobState)
    (outcome : CompletionDisposition) : Prop where
  applied : outcome.disposition = .applied
  job : s'.stateOf lease.jobId = some terminal
  closed : s'.leases.find? lease.id = some (lease.withState .completed)
  reconciled : ∃ nodes decision final,
    (s.finishJob lease .completed terminal).attemptGraph path.attempt.id = .ok nodes ∧
    Decides nodes (s.cancellationRequested path.build.id) decision final ∧
    (∀ job ∈ s'.attemptJobs path.attempt.id, job.state = final job.id) ∧
    s'.attempts.find? path.attempt.id = some (path.attempt.withState decision.attemptState) ∧
    s'.builds.find? path.build.id = some (path.build.withState decision.buildState) ∧
    outcome.readyJobs = transitionsTo decision .ready ∧
    outcome.skippedJobs = transitionsTo decision .skipped ∧
    outcome.attemptState = decision.attemptState ∧ outcome.buildState = decision.buildState
  queued : ∀ id ∈ outcome.readyJobs, s'.readyQueue.contains id = true

/-- The stored row of a completion. -/
def completionRow (request : JobCompletion) (jobId : JobId) (finalSequence : Bigint)
    (applied : AppliedOrchestration) : JobCompletionRow where
  jobId := jobId
  completionId := request.completionId
  leaseId := request.lease.leaseId
  finalSequence := finalSequence
  kind := completionKind request.kind
  failureClass := failureClass request.kind
  execution := request.execution
  readyJobs := applied.readyJobs
  skippedJobs := applied.skippedJobs
  attemptState := applied.attemptState
  buildState := applied.buildState

theorem completionRow_wellFormed (hkind : request.kind ≠ .timedOut) (jobId : JobId)
    (finalSequence : Bigint) (applied : AppliedOrchestration) :
    (completionRow request jobId finalSequence applied).wellFormed = true := by
  unfold completionRow JobCompletionRow.wellFormed
  cases hcase : request.kind with
  | failed failure => cases failure <;> rfl
  | succeeded | cancelled => rfl
  | timedOut => exact absurd hcase hkind

/-- The outcome of a completion whose rows are stored. -/
def appliedOutcome (s : StoreState) (request : JobCompletion) (jobId : JobId)
    (applied : AppliedOrchestration) : CompletionDisposition where
  disposition := .applied
  jobId := jobId
  failureClass := request.kind.failureClass
  readyJobs := applied.readyJobs
  readyPools := s.readyPools applied.readyJobs
  skippedJobs := applied.skippedJobs
  attemptState := applied.attemptState
  buildState := applied.buildState

/-- A held Job has no stored completion, neither has its Lease. -/
theorem Reachable.completion_free (h : Reachable rules s)
    (hlease : s.leases.find? lease.id = some lease) (hcur : lease.state.isCurrent = true)
    (hpath : s.locate lease.jobId = some path) : ∀ row ∈ s.jobCompletions.rows,
      row.jobId ≠ lease.jobId ∧ row.leaseId ≠ lease.id := by
  intro row hrow
  have hne : row.jobId ≠ lease.jobId := by
    intro hjob
    have hheld := h.isHeld hlease hcur hpath
    obtain ⟨state, hstate, hterm⟩ :=
      h.completed ((contains_iff _ _).mpr ⟨row, hrow, hjob⟩)
    rw [stateOf_eq_some.mpr ⟨path.job, (locate_eq_some.mp hpath).1, rfl⟩] at hstate
    cases hstate
    cases hcase : path.job.state <;> rw [hcase] at hheld hterm <;>
      first | exact absurd hheld Bool.false_ne_true | exact absurd hterm Bool.false_ne_true
  refine ⟨hne, fun hid => ?_⟩
  obtain ⟨found, hfound, hjob⟩ := h.linked.completion _ row (Table.find?_of_mem _ hrow)
  rw [hid, hlease] at hfound
  cases hfound
  exact hne hjob.symm

variable {terminal : JobState} {completedAt : Timestamp}

/-- The state a Lease is finished in reconciles its Attempt. -/
theorem Reachable.finished (h : Reachable rules s) (hlease : s.leases.find? lease.id = some lease)
    (hcur : lease.state.isCurrent = true) (hpath : s.locate lease.jobId = some path)
    (hterm : terminal.isTerminal = true) : Coherent (s.finishJob lease .completed terminal) ∧
      Linked (s.finishJob lease .completed terminal) ∧
      (s.finishJob lease .completed terminal).dispatch.Sound ∧
      (s.finishJob lease .completed terminal).attempts.find? path.attempt.id = some path.attempt ∧
      path.build.id = path.attempt.buildId := by
  obtain ⟨hjob, hatt, hbuild⟩ := locate_eq_some.mp hpath
  have hheld := h.isHeld hlease hcur hpath
  have hwrite : Write rules s (s.finishJob lease .completed terminal) :=
    .finish (fun h => nomatch h) hlease hcur rfl hjob hheld hterm
  have hid : path.attempt.id = path.job.attemptId := key_of_find? hatt
  refine ⟨h.coherent.write h.linked hwrite, h.linked.evolution hwrite.evolution,
    h.sound.moves (hwrite.moves h.linked), ?_, key_of_find? hbuild⟩
  rw [hid]
  exact hatt

theorem finishJob_signature (hrow : row ∈ (s.finishJob lease .completed terminal).jobs.rows) :
    ∃ before ∈ s.jobs.rows, before.id = row.id ∧
      (s.finishJob lease .completed terminal).signature rules completedAt row =
        s.signature rules completedAt before := by
  obtain ⟨f, hf, hjobs, hfol⟩ := finishJob_edits (s := s) lease .completed terminal
  rw [hjobs, mapRows_rows] at hrow
  obtain ⟨before, hbef, rfl⟩ := mem_map.mp hrow
  exact ⟨before, hbef, (hfol before).1.id.symm, signature_follows (hfol before).1 rfl⟩

/-- Finishing the held Job of a Lease and reconciling its Attempt succeeds. -/
theorem Reachable.finish_isOk (h : Reachable rules s)
    (hlease : s.leases.find? lease.id = some lease) (hcur : lease.state.isCurrent = true)
    (hpath : s.locate lease.jobId = some path) (hterm : terminal.isTerminal = true)
    (hsigned : ∀ row ∈ s.jobs.rows, row.id ∈
      (s.finishJob lease .completed terminal).readied path.attempt.id path.build.id →
        (s.signature rules completedAt row).isSome = true) :
    ∃ applied s', (s.finishJob lease .completed terminal).reconcileAndApply rules path.attempt.id
      path.build.id completedAt = .ok (applied, s') := by
  obtain ⟨hcoh, hlink, hsound, hatt, hbid⟩ :=
    h.finished hlease hcur hpath hterm
  rw [hbid] at hsigned ⊢
  refine hcoh.reconcileAndApply_isOk hlink hsound hatt fun row hrow hready => ?_
  obtain ⟨before, hbef, hid, hsame⟩ := finishJob_signature hrow
  rw [hsame]
  exact hsigned before hbef (by rw [hid]; exact hready)

variable {applied : AppliedOrchestration} {jobId : JobId} {finalSequence : Bigint}

/-- What the reconciliation after the end of a Job leaves. -/
theorem finish_completes {s₁ : StoreState}
    (hlease : s.leases.find? lease.id = some lease) (hpath : s.locate lease.jobId = some path)
    (hterm : terminal.isTerminal = true)
    (hrec : (s.finishJob lease .completed terminal).reconcileAndApply rules path.attempt.id
      path.build.id completedAt = .ok (applied, s₁))
    (hframe : s' = { s₁ with
      jobCompletions := s'.jobCompletions
      idempotency := s'.idempotency })
    (happlied : outcome.disposition = .applied)
    (hout : outcome.readyJobs = applied.readyJobs ∧ outcome.skippedJobs = applied.skippedJobs ∧
      outcome.attemptState = applied.attemptState ∧ outcome.buildState = applied.buildState) :
    Completes s s' lease path terminal outcome := by
  obtain ⟨hjob, hatt, hbuild⟩ := locate_eq_some.mp hpath
  obtain ⟨hready, hskipped, hattemptState, hbuildState⟩ := hout
  obtain ⟨hlses, -, hkept⟩ := reconcileAndApply_keeps hrec
  obtain ⟨nodes, decision, final, s₂, hnodes, hdecs, hunblk, hs₁, rfl⟩ :=
    reconcileAndApply_eq_ok hrec
  have hjobs : s'.jobs = s₂.jobs := by
    rw [hframe, hs₁]
    rfl
  obtain ⟨hother, -, hqueue, -⟩ := unblock_eq_ok hunblk
  have hatts : s₂.attempts = s.attempts := by
    rw [hother]
    rfl
  have hblds : s₂.builds = s.builds := by
    rw [hother]
    rfl
  have hid : path.attempt.id = path.job.attemptId := key_of_find? hatt
  have hbid : path.build.id = path.attempt.buildId := key_of_find? hbuild
  refine ⟨happlied, ?_, ?_, ⟨nodes, decision, final, hnodes, hdecs, ?_, ?_, ?_, hready, hskipped,
    hattemptState, hbuildState⟩, ?_⟩
  · have hstate : (s.finishJob lease .completed terminal).stateOf lease.jobId = some terminal := by
      rw [(finishJob_edits lease .completed terminal).stateOf,
        stateOf_eq_some.mpr ⟨path.job, hjob, rfl⟩, Option.map_some, if_pos rfl]
    have hsame : s'.jobs = s₁.jobs := by rw [hframe]
    rw [stateOf, hsame]
    exact hkept _ _ hstate hterm
  · have hsame : s'.leases = s₁.leases := by rw [hframe]
    rw [hsame, hlses]
    refine (closeLease_find? lease.id .completed lease.id).trans ?_
    rw [hlease, Option.map_some, if_pos rfl]
  · intro job hmem
    have hmem₂ : job ∈ s₂.attemptJobs path.attempt.id := by
      rw [attemptJobs, hjobs] at hmem
      exact hmem
    obtain ⟨node, -, hnodeId, hstate⟩ := unblock_final hnodes hdecs hunblk hmem₂
    rw [hstate, hnodeId]
  · have hsame : s'.attempts = (s₂.setAttemptState path.attempt.id decision.attemptState).attempts := by
      rw [hframe, hs₁]
      rfl
    rw [hsame, setAttemptState_find?, hatts, hid, hatt, Option.map_some, if_pos hid]
  · have hsame : s'.builds = (s₂.setBuildState path.build.id decision.buildState).builds := by
      rw [hframe, hs₁]
      rfl
    rw [hsame, setBuildState_find?, hblds, hbid, hbuild, Option.map_some, if_pos hbid]
  · intro id hmem
    have hsame : s'.readyQueue = s₂.readyQueue := by
      rw [hframe, hs₁]
      rfl
    rw [hsame, hqueue]
    exact .inr (by rw [hready] at hmem; exact hmem)

/-- The statements that end the held Job of a Lease. -/
theorem Reachable.persistTerminalState_isOk (h : Reachable rules s)
    (hlease : s.leases.find? request.lease.leaseId = some lease)
    (hcur : lease.state.isCurrent = true) (hpath : s.locate lease.jobId = some path)
    (hkind : request.kind ≠ .timedOut) : ∃ terminal,
      completeJobState path.job.state request.kind = .ok terminal ∧ terminal.isTerminal = true ∧
      s.persistTerminalState request lease.jobId = .ok (s.finishJob lease .completed terminal) := by
  have hid : lease.id = request.lease.leaseId := key_of_find? hlease
  obtain ⟨hjob, -, -⟩ := locate_eq_some.mp hpath
  obtain ⟨terminal, hstate, hterm, htext⟩ :=
    completeJobState_isOk (h.isHeld hlease hcur hpath) request.kind
  refine ⟨terminal, hstate, hterm, bind_eq_ok.mpr ⟨path.job, okOr_eq_ok.mpr hjob,
    bind_eq_ok.mpr ⟨terminal, hstate, ?_⟩⟩⟩
  rw [if_neg (not_not.mpr (htext hkind)), ← hid]
  rfl

/-- The part of a completion that writes the Job, its Attempt and the completion. -/
theorem Reachable.applyCompletion_isOk (h : Reachable rules s) (row : LoadedLease)
    (hlease : s.leases.find? request.lease.leaseId = some row.lease)
    (hcur : row.lease.state.isCurrent = true) (hpath : s.locate row.lease.jobId = some row.path)
    (hkind : request.kind ≠ .timedOut)
    (hunused : ∀ row ∈ s.jobCompletions.rows, row.completionId ≠ request.completionId)
    (hstate : completeJobState row.path.job.state request.kind = .ok terminal)
    (hsigned : ∀ job ∈ s.jobs.rows, job.id ∈
      (s.finishJob row.lease .completed terminal).readied row.path.attempt.id row.path.build.id →
        (s.signature rules request.completedAt job).isSome = true) (finalSequence : Bigint) :
    ∃ applied s', s.applyCompletion rules request row finalSequence =
        .ok (s'.appliedOutcome request row.lease.jobId applied, s') ∧
      s'.idempotency = s.idempotency ∧ s'.registrations = s.registrations ∧
      s'.jobCompletions.find? row.lease.jobId =
        some (completionRow request row.lease.jobId finalSequence applied) ∧
      Completes s s' row.lease row.path terminal
        (s'.appliedOutcome request row.lease.jobId applied) := by
  have hid : row.lease.id = request.lease.leaseId := key_of_find? hlease
  have hfound : s.leases.find? row.lease.id = some row.lease := by
    rw [hid]
    exact hlease
  obtain ⟨terminal', hstate', hterm, hpersist⟩ :=
    h.persistTerminalState_isOk hlease hcur hpath hkind
  rw [hstate] at hstate'
  cases hstate'
  obtain ⟨applied, s₁, hrec⟩ := h.finish_isOk hfound hcur hpath hterm hsigned
  have hcomps : s₁.jobCompletions = s.jobCompletions :=
    (reconcileAndApply_keeps hrec).2.1
  have hframe := reconcileAndApply_frame hrec
  have hfree := h.completion_free hfound hcur hpath
  obtain ⟨s₂, hins⟩ := insertCompletion_isOk (s := s₁)
    (completionRow_wellFormed hkind row.lease.jobId finalSequence applied)
    (by rw [hcomps]; exact hunused)
    (by
      rw [hcomps]
      intro other hother
      exact (hfree other hother).2.trans_eq hid)
    (by
      rw [hcomps]
      exact fun other hother => (hfree other hother).1)
  obtain ⟨hother, -, -, hfind⟩ := insertCompletion_eq_ok hins
  refine ⟨applied, s₂, bind_eq_ok.mpr ⟨_, hpersist, bind_eq_ok.mpr ⟨_, hrec,
    bind_eq_ok.mpr ⟨s₂, hins, rfl⟩⟩⟩, ?_, ?_, ?_, ?_⟩
  · rw [hother, hframe]
    rfl
  · rw [hother, hframe]
    rfl
  · rw [hfind]
    exact if_pos rfl
  · refine finish_completes hfound hpath hterm hrec ?_ rfl ⟨rfl, rfl, rfl, rfl⟩
    rw [hother]

/-! ## Replays -/

/-- Later records of completions keep the earlier ones. -/
theorem Writes.completeJob_records (h : Writes rules s s') :
    s.idempotency.completeJob <+: s'.idempotency.completeJob :=
  writes_keep (P := fun s' => s.idempotency.completeJob <+: s'.idempotency.completeJob)
    (fun _ _ hs hwrite => hs.trans hwrite.evolution.records.completeJob) h prefix_rfl

/-- A Job keeps everything but its state. -/
theorem Writes.job_follows (h : Writes rules s s') {job : JobRow}
    (hjob : s.jobs.find? jobId = some job) :
    ∃ job', s'.jobs.find? jobId = some job' ∧ job.Follows job' := by
  refine writes_keep (P := fun s' => ∃ job', s'.jobs.find? jobId = some job' ∧ job.Follows job')
    (fun s₁ s₂ hs hwrite => ?_) h ⟨job, hjob, job.follows_refl⟩
  obtain ⟨job₁, hjob₁, hfol⟩ := hs
  obtain ⟨job₂, hjob₂, hadvs⟩ := hwrite.evolution.jobs.grows _ _ hjob₁
  exact ⟨job₂, hjob₂, hfol.trans hadvs.1⟩

section

variable (hlink : Linked s) (hlease : s.leases.find? request.lease.leaseId = some lease)
  (hpath : s.locate lease.jobId = some path)
  (hreg : s.registrations.find? lease.registrationId = some registration)
  (hagent : registration.agentId = request.lease.agentId)
  (hepoch : (lease.registrationEpoch : Nat) = request.lease.registrationEpoch)
  (hfence : lease.fence = request.lease.fence)
  (hevid : executionEvidenceIsValid rules request.kind path.job.jobSpecTemplate.runtime
    registration.inventory registration.executionContractVersion request.execution = true)
  (hseq : (finalSequence : Nat) = request.required)

include hlink hlease hpath hreg hagent hepoch hfence hevid hseq

/-- The checks a completion makes before it looks for a stored one. -/
theorem completion_checks (now : Timestamp) : ∃ agent,
      s.locateGraph request.lease.leaseId = some (path.attempt.id, path.attempt.buildId) ∧
      s.loadLease now request.lease .completeJob =
        .ok ⟨lease, path, registration, agent, lease.expiresAt ≤ now⟩ ∧
      requireValidExecutionEvidence rules
        ⟨lease, path, registration, agent, lease.expiresAt ≤ now⟩ request = .ok () ∧
      number request.required .completeJob = .ok finalSequence := by
  obtain ⟨agent, hload⟩ := hlink.loadLease_isOk hlease hpath hreg hagent hepoch hfence now
    .completeJob
  obtain ⟨hjob, hatt, -⟩ := locate_eq_some.mp hpath
  have hbound : request.required < 2 ^ 63 := by
    rw [← hseq]
    exact finalSequence.isLt
  refine ⟨agent, ?_, hload, if_pos hevid, ?_⟩
  · unfold locateGraph
    rw [hlease, Option.bind_eq_bind, Option.bind_some, hjob, Option.bind_eq_bind, Option.bind_some,
      hatt]
    rfl
  · rw [number_isOk hbound]
    exact congrArg Except.ok (Fin.ext hseq.symm)

/-- A completion committed by the other origin is replayed from its row. -/
theorem completeFresh_replay
    (hcompd : s.jobCompletions.find? lease.jobId =
      some (completionRow request lease.jobId finalSequence applied)) (now : Timestamp)
    (origin : CompletionOrigin) : s.completeFresh rules now request origin =
      .ok ({ s.appliedOutcome request lease.jobId applied with disposition := .replayed }, s) := by
  obtain ⟨agent, hgraph, hload, hvalid, hnum⟩ := completion_checks hlink hlease hpath
    hreg hagent hepoch hfence hevid hseq now
  have hmatch : (completionRow request lease.jobId finalSequence applied).isFor request = true := by
    simp [completionRow, JobCompletionRow.isFor, hseq]
  have hreplay : s.replayCompletion (completionRow request lease.jobId finalSequence applied) =
      .ok { s.appliedOutcome request lease.jobId applied with disposition := .replayed } :=
    bind_eq_ok.mpr ⟨_, parseFailureClass_failureClass request.kind, rfl⟩
  refine bind_eq_ok.mpr ⟨_, okOr_eq_ok.mpr hgraph, bind_eq_ok.mpr ⟨_, hload, bind_eq_ok.mpr
    ⟨_, hvalid, bind_eq_ok.mpr ⟨_, hnum, ?_⟩⟩⟩⟩
  rw [hcompd]
  simp only
  rw [if_pos hmatch]
  exact bind_eq_ok.mpr ⟨_, hreplay, rfl⟩

end

theorem requireDurableCursor_eq_ok {required : Nat}
    (h : required = s.durableThrough jobId) : s.requireDurableCursor jobId required = .ok () := by
  unfold requireDurableCursor
  rw [h, if_neg (lt_irrefl _), if_neg (lt_irrefl _)]

/-- Without a stored completion the completion of the holder is applied, once its
    cursor is the durable one. -/
theorem completeFresh_eq (hhold : CurrentHolder s now request.completedAt request.lease lease path
      registration) (hlink : Linked s)
    (hevid : executionEvidenceIsValid rules request.kind path.job.jobSpecTemplate.runtime
      registration.inventory registration.executionContractVersion request.execution = true)
    (finalSequence : Bigint) (hseq : (finalSequence : Nat) = request.required)
    (hnone : s.jobCompletions.find? lease.jobId = none) (origin : CompletionOrigin) :
    ∃ agent, s.completeFresh rules now request origin =
      s.requireDurableCursor lease.jobId request.required >>= fun _ =>
        s.applyCompletion rules request
          ⟨lease, path, registration, agent, lease.expiresAt ≤ now⟩ finalSequence >>= fun applied =>
            applied.2.commitCompletion origin request applied.1 >>= fun committed =>
              .ok (applied.1, committed) := by
  obtain ⟨agent, hgraph, hload, hvalid, hnum⟩ := completion_checks hlink hhold.found
    hhold.located hhold.enrolled hhold.agent hhold.epoch hhold.fence hevid hseq
    now
  refine ⟨agent, ?_⟩
  unfold completeFresh
  rw [hgraph, hload]
  simp only [okOr_some, hvalid, hnum, hnone, hhold.requireCurrent agent, bind, Except.bind]

/-! ## The completion of the holder -/

/-- What the holder of a Lease may complete its Job with: a kind that can be stored,
    accepted evidence, facts that fit the audit and an id nothing else was completed
    under. -/
structure Completable (rules : CoreRules) (s : StoreState) (path : JobPath)
    (registration : RegistrationRow) (request : JobCompletion) : Prop where
  kind : request.kind ≠ .timedOut
  evidence : executionEvidenceIsValid rules request.kind path.job.jobSpecTemplate.runtime
    registration.inventory registration.executionContractVersion request.execution = true
  auditable : request.Auditable
  unused : s.CompletionIdUnused request.completionId

/-- Whether the signer signs the Jobs the completion makes ready. -/
def SignsReadied (rules : CoreRules) (s : StoreState) (lease : LeaseRow) (path : JobPath)
    (request : JobCompletion) : Prop :=
  ∀ terminal, completeJobState path.job.state request.kind = .ok terminal →
    ∀ row ∈ s.jobs.rows, row.id ∈
      (s.finishJob lease .completed terminal).readied path.attempt.id path.build.id →
        (s.signature rules request.completedAt row).isSome = true

section

variable (h : Reachable rules s)
  (hhold : CurrentHolder s now request.completedAt request.lease lease path registration)

include h hhold

theorem Reachable.completion_none : s.jobCompletions.find? lease.jobId = none := by
  have hid : lease.id = request.lease.leaseId := key_of_find? hhold.found
  have hfound : s.leases.find? lease.id = some lease := by
    rw [hid]
    exact hhold.found
  exact Table.find?_eq_none_iff.mpr fun row hrow =>
    (h.completion_free hfound hhold.current hhold.located row hrow).1

section

variable (hreq : Completable rules s path registration request)

include hreq

/-- The holder completes its Job under either origin. -/
theorem Reachable.completeWithOrigin_isOk
    (hcurs : request.required = s.durableThrough lease.jobId)
    (hsigned : SignsReadied rules s lease path request) (origin : CompletionOrigin) :
    ∃ (applied : AppliedOrchestration) (s₁ : StoreState) (terminal : JobState)
        (finalSequence : Bigint), (finalSequence : Nat) = request.required ∧
      completeJobState path.job.state request.kind = .ok terminal ∧
      s.completeWithOrigin rules now request origin =
        .ok (s₁.appliedOutcome request lease.jobId applied, s₁.recordCompletion origin request
          (s₁.appliedOutcome request lease.jobId applied)) ∧
      s₁.idempotency = s.idempotency ∧ s₁.registrations = s.registrations ∧
      s₁.jobCompletions.find? lease.jobId =
        some (completionRow request lease.jobId finalSequence applied) ∧
      Completes s s₁ lease path terminal (s₁.appliedOutcome request lease.jobId applied) := by
  have hbound : request.required < 2 ^ 63 := by
    rw [hcurs]
    exact h.numbered.durableThrough_lt lease.jobId
  obtain ⟨terminal, hstate, -⟩ :=
    h.persistTerminalState_isOk hhold.found hhold.current hhold.located hreq.kind
  obtain ⟨agent, hfresh⟩ := completeFresh_eq hhold h.linked hreq.evidence
    ⟨request.required, hbound⟩ rfl (h.completion_none hhold) origin
  obtain ⟨applied, s₁, happly, hrecs, hregs, hcompd, hcompls⟩ :=
    h.applyCompletion_isOk ⟨lease, path, registration, agent, lease.expiresAt ≤ now⟩ hhold.found
      hhold.current hhold.located hreq.kind hreq.unused.1 hstate
      (hsigned terminal hstate) ⟨request.required, hbound⟩
  rw [requireDurableCursor_eq_ok hcurs, happly] at hfresh
  replace hfresh : _ = s₁.commitCompletion origin request _ >>= _ := hfresh
  rw [commitCompletion_isOk hreq.auditable] at hfresh
  exact ⟨applied, s₁, terminal, _, rfl, hstate,
    bind_eq_ok.mpr ⟨none, beginMutation_eq_none.mpr (hreq.unused.2 origin), hfresh⟩, hrecs,
    hregs, hcompd, hcompls⟩

/-- A Job the signer refuses keeps the completion from being applied. -/
theorem Reachable.completeWithOrigin_unsigned
    (hcurs : request.required = s.durableThrough lease.jobId)
    (hunsig : ¬ SignsReadied rules s lease path request) (origin : CompletionOrigin) :
    s.completeWithOrigin rules now request origin = .error .unavailable := by
  have hbound : request.required < 2 ^ 63 := by
    rw [hcurs]
    exact h.numbered.durableThrough_lt lease.jobId
  have hid : lease.id = request.lease.leaseId := key_of_find? hhold.found
  have hfound : s.leases.find? lease.id = some lease := by
    rw [hid]
    exact hhold.found
  obtain ⟨terminal, hstate, hterm, hpersist⟩ :=
    h.persistTerminalState_isOk hhold.found hhold.current hhold.located hreq.kind
  obtain ⟨agent, hfresh⟩ := completeFresh_eq hhold h.linked hreq.evidence
    ⟨request.required, hbound⟩ rfl (h.completion_none hhold) origin
  -- the transaction stops at the Job that is not signed
  have hrec : (s.finishJob lease .completed terminal).reconcileAndApply rules
      path.attempt.id path.build.id request.completedAt = .error .unavailable := by
    unfold SignsReadied at hunsig
    push Not at hunsig
    obtain ⟨terminal', hstate', row, hrow, hreadied, hnone⟩ := hunsig
    rw [hstate] at hstate'
    cases hstate'
    obtain ⟨hcoh, hlink, hsound, hatt, hbid⟩ :=
      h.finished hfound hhold.current hhold.located hterm
    obtain ⟨f, hf, hjobs, hfol⟩ := finishJob_edits (s := s) lease .completed terminal
    rw [hbid] at hreadied ⊢
    have hkept : f row ∈ (s.finishJob lease .completed terminal).jobs.rows := by
      rw [hjobs, mapRows_rows]
      exact mem_map_of_mem hrow
    refine hcoh.reconcileAndApply_unsigned hlink hsound hatt hkept ?_ ?_
    · rw [(hfol row).1.id]
      exact hreadied
    · have hsame : (s.finishJob lease .completed terminal).signature rules request.completedAt
          (f row) = s.signature rules request.completedAt row :=
        signature_follows (hfol row).1 rfl
      rw [hsame]
      simpa using hnone
  rw [requireDurableCursor_eq_ok hcurs] at hfresh
  have happly : s.applyCompletion rules request
      ⟨lease, path, registration, agent, lease.expiresAt ≤ now⟩ ⟨request.required, hbound⟩ =
        .error .unavailable := by
    unfold applyCompletion
    simp only [hpersist, hrec, bind, Except.bind]
  rw [happly] at hfresh
  unfold completeWithOrigin
  rw [beginMutation_eq_none.mpr (hreq.unused.2 origin)]
  exact hfresh

/-- A completion that declares less than what is durable is refused. -/
theorem Reachable.completeWithOrigin_behind
    (hbehind : request.required < s.durableThrough lease.jobId) (origin : CompletionOrigin) :
    s.completeWithOrigin rules now request origin = .error (.conflict .job) := by
  have hbound : request.required < 2 ^ 63 :=
    hbehind.trans (h.numbered.durableThrough_lt lease.jobId)
  obtain ⟨agent, hfresh⟩ := completeFresh_eq hhold h.linked hreq.evidence
    ⟨request.required, hbound⟩ rfl (h.completion_none hhold) origin
  have hcurs : s.requireDurableCursor lease.jobId request.required = .error (.conflict .job) := by
    unfold requireDurableCursor
    rw [if_neg (not_lt.mpr hbehind.le), if_pos hbehind]
  rw [hcurs] at hfresh
  unfold completeWithOrigin
  rw [beginMutation_eq_none.mpr (hreq.unused.2 origin)]
  exact hfresh

end

end

/-- The holder of a current Lease finishes its Job with every kind of completion but a
    timeout, once the durable cursor is the declared one, the facts fit the audit, the id is
    new and the Jobs that become ready can be signed.  Asked again, later or under the other origin, the store
    replays the outcome. -/
theorem Reachable.completeJob_applied (h : Reachable rules s)
    (hhold : CurrentHolder s now request.completedAt request.lease lease path registration)
    (hkind : request.kind ≠ .timedOut)
    (hevid : executionEvidenceIsValid rules request.kind path.job.jobSpecTemplate.runtime
      registration.inventory registration.executionContractVersion request.execution = true)
    (hauditable : request.Auditable)
    (hcurs : request.required = s.durableThrough lease.jobId)
    (hunused : s.CompletionIdUnused request.completionId)
    (hsigned : ∀ terminal, completeJobState path.job.state request.kind = .ok terminal →
      ∀ row ∈ s.jobs.rows, row.id ∈
        (s.finishJob lease .completed terminal).readied path.attempt.id path.build.id →
          (s.signature rules request.completedAt row).isSome = true) :
    ∃ outcome s' terminal, s.completeJob rules now request = .ok (outcome, s') ∧
      completeJobState path.job.state request.kind = .ok terminal ∧
      Completes s s' lease path terminal outcome ∧
      (∀ later now', (run rules s' later).completeJob rules now' request =
        .ok ({ outcome with disposition := .replayed }, run rules s' later)) ∧
      (request.validateAssignmentFailure = .ok () → ∀ now', s'.failAssignment rules now' request =
        .ok ({ outcome with disposition := .replayed }, s')) := by
  have hid : lease.id = request.lease.leaseId := key_of_find? hhold.found
  have hbegin : beginMutation (s.completionRecords .agent) request.completionId
      request.fingerprint .job = .ok none := beginMutation_eq_none.mpr (hunused.2 .agent)
  obtain ⟨applied, s₁, terminal, finalSequence, hseq, hstate, hok, hrecs, hregs,
    hcompd, hcompls⟩ :=
      h.completeWithOrigin_isOk hhold ⟨hkind, hevid, hauditable, hunused⟩ hcurs hsigned .agent
  let outcome := s₁.appliedOutcome request lease.jobId applied
  let s' := s₁.recordCompletion .agent request outcome
  replace hok : s.completeJob rules now request = .ok (outcome, s') := hok
  have hreach : Reachable rules s' :=
    h.execute (.complete now request) (by rw [StoreState.execute, hok]; rfl)
  have hwrites : Writes rules s s' := completeWithOrigin_writes hok
  refine ⟨outcome, s', terminal, hok, hstate, ?_, fun later now' => ?_, fun hshape now' => ?_⟩
  · exact { hcompls with }
  · -- the record of the agent's scope stays
    have hrecd : beginMutation s'.idempotency.completeJob request.completionId
        request.fingerprint .job = .ok (some outcome) := by
      change beginMutation (commitMutation s₁.idempotency.completeJob _ _ _) _ _ _ = _
      rw [hrecs]
      exact beginMutation_commit hbegin
    obtain ⟨records, hlater⟩ := (run_writes rules s' later).completeJob_records
    refine bind_eq_ok.mpr ⟨some outcome, ?_, rfl⟩
    change beginMutation (run rules s' later).idempotency.completeJob _ _ _ = _
    rw [← hlater]
    exact beginMutation_append hrecd
  · have hother : beginMutation (s'.completionRecords .assignmentDelivery) request.completionId
        request.fingerprint .job = .ok none := by
      refine beginMutation_eq_none.mpr fun record hrecord => hunused.2 .assignmentDelivery record ?_
      have hsame : s'.idempotency.failLeaseAssignment = s.idempotency.failLeaseAssignment := by
        rw [← hrecs]
        rfl
      change record ∈ s'.idempotency.failLeaseAssignment at hrecord
      rw [hsame] at hrecord
      exact hrecord
    obtain ⟨hjob, -, -⟩ := locate_eq_some.mp hhold.located
    obtain ⟨job', hjob', hfol⟩ := hwrites.job_follows hjob
    obtain ⟨path', hpath', rfl⟩ := hreach.linked.locate hjob'
    have hclos : s'.leases.find? request.lease.leaseId = some (lease.withState .completed) := by
      rw [← hid]
      exact hcompls.closed
    have hsame : s'.registrations = s.registrations := by
      rw [← hregs]
      rfl
    have henrolled : s'.registrations.find? (lease.withState .completed).registrationId =
        some registration := by
      rw [hsame]
      exact hhold.enrolled
    have hreplay := completeFresh_replay hreach.linked hclos hpath' henrolled hhold.agent
      hhold.epoch hhold.fence (by rw [hfol.jobSpecTemplate]; exact hevid) hseq
      hcompd now' .assignmentDelivery
    exact bind_eq_ok.mpr ⟨(), hshape, bind_eq_ok.mpr ⟨none, hother, hreplay⟩⟩

namespace Sample

def completion (lease : LeaseAccess) (kind : JobCompletionKind) (completedAt : Nat) :
    JobCompletion where
  completionId := "done"
  lease := lease
  finalSequence := none
  kind := kind
  execution := none
  completedAt := instant completedAt

def nextHolder : LeaseAccess := ⟨⟨2⟩, ⟨2⟩, ⟨1⟩, 1⟩

def laterJob : MaterializedJob :=
  { onlyJob with
    id := ⟨2⟩
    pipelineNodeId := "test"
    dependencies := [⟨1⟩]
    jobSpecTemplate := ⟨⟨1⟩, "test", .legacy, "{}"⟩ }

/-- An Agent with one isolation route under the provider-neutral contract. -/
def isolationFleet : Administration :=
  { fleet with
    registrations :=
      ⟨[⟨⟨1⟩, ⟨1⟩, ⟨1, Nat.one_lt_two_pow (Nat.succ_ne_zero 62)⟩, ⟨[⟨"containerd", "{}"⟩], "{}"⟩, 2,
        false, instant 900⟩], pairwise_singleton _ _⟩ }

def imageTarget (image : String) : Placement.ExecutionTarget :=
  ⟨.isolation, ⟨.linux, .amd64⟩, ⟨.linux, .amd64⟩, Placement.guaranteesFor .isolation, some image⟩

/-- A Build whose first Job runs an image and whose second Job waits for it. -/
def imageBuild (image : String) : MaterializeBuild :=
  { onlyBuild with
    jobs :=
      [{ onlyJob with jobSpecTemplate := ⟨⟨1⟩, "build", .current (imageTarget image), "{}"⟩ },
        laterJob] }

def imageRun (image : String) : List Transaction :=
  [.administer isolationFleet, .materialize (imageBuild image), .claim (fun _ => false) onlyClaim]

def imageCompletion (image : String) : JobCompletion :=
  { completion holder .succeeded 3 with execution := some ⟨"containerd", imageTarget image⟩ }

def guestImage : String :=
  "example.invalid/guest@sha256:aaaaaaaaaaaaaaaaaaaaaaaaaaaaaaaaaaaaaaaaaaaaaaaaaaaaaaaaaaaaaaaa"

/-- The holder finishes a Job with the evidence of its image; the Job that waited for it is
    ready, and the completion is replayed later on. -/
theorem claimed_completeJob :
    let s := run acceptAll .initial (imageRun guestImage)
    ∃ outcome s',
      s.completeJob acceptAll (instant 3) (imageCompletion guestImage) = .ok (outcome, s') ∧
      s'.stateOf ⟨1⟩ = some .succeeded ∧ s'.stateOf ⟨2⟩ = some .ready ∧
      s'.readyQueue.contains ⟨2⟩ = true ∧
      s'.completeJob acceptAll (instant 30) (imageCompletion guestImage) =
        .ok ({ outcome with disposition := .replayed }, s') := by
  intro s
  have hlease : ∃ lease, s.leases.find? ⟨1⟩ = some lease ∧ lease.jobId = ⟨1⟩ ∧
      lease.registrationId = ⟨1⟩ ∧ lease.state.isCurrent = true ∧ instant 3 < lease.expiresAt ∧
      (lease.registrationEpoch : Nat) = 1 ∧ lease.fence = ⟨1⟩ := by decide +kernel
  have hpath : ∃ path, s.locate ⟨1⟩ = some path ∧
      path.job.jobSpecTemplate.runtime = .current (imageTarget guestImage) ∧
      path.job.state = .leased := by
    have hsome : (s.locate ⟨1⟩).map
        (fun path => (path.job.jobSpecTemplate.runtime, path.job.state)) =
          some (.current (imageTarget guestImage), .leased) := by decide +kernel
    obtain ⟨path, hpath, hflds⟩ := Option.map_eq_some_iff.mp hsome
    exact ⟨path, hpath, congrArg Prod.fst hflds, congrArg Prod.snd hflds⟩
  have hreg : ∃ registration, s.registrations.find? ⟨1⟩ = some registration ∧
      registration.agentId = ⟨1⟩ ∧ registration.revoked = false ∧
      instant 3 < registration.expiresAt ∧ registration.executionContractVersion = 2 ∧
      registration.inventory.executions = [⟨"containerd", "{}"⟩] := by decide +kernel
  obtain ⟨lease, hlease, hjobId, hregistrationId, hcur, hunexpired, hepoch, hfence⟩ := hlease
  obtain ⟨path, hpath, hruntime, hleased⟩ := hpath
  obtain ⟨registration, hreg, hagent, hunrevoked, hregd, hcontract, hroutes⟩ :=
    hreg
  obtain ⟨outcome, s', terminal, hok, hterm, hcompls, hreplay, -⟩ :=
    @Reachable.completeJob_applied acceptAll s (instant 3) lease path registration
      (imageCompletion guestImage) ⟨imageRun guestImage, rfl⟩
      { found := hlease
        located := by rw [hjobId]; exact hpath
        enrolled := by rw [hregistrationId]; exact hreg
        current := hcur
        unexpired := ⟨hunexpired, hunexpired⟩
        unrevoked := hunrevoked
        registered := hregd
        agent := hagent
        epoch := hepoch
        fence := hfence }
      (by decide)
      (by
        rw [hruntime, hcontract]
        simp [imageCompletion, executionEvidenceIsValid, executionContractV2, hroutes, acceptAll])
      (by
        refine ⟨by decide, fun _ hsome => ?_, fun _ hsome image himage => ?_⟩
        · cases hsome
          decide
        · cases hsome
          cases himage
          decide)
      (by rw [hjobId]; decide +kernel)
      (by
        constructor
        · decide +kernel
        · intro origin
          cases origin <;> decide +kernel)
      (fun _ _ row hrow _ => by
        have hall : ∀ row ∈ s.jobs.rows,
            (s.signature acceptAll (instant 3) row).isSome = true := by decide +kernel
        exact hall row hrow)
  have hsucc : ((s.completeJob acceptAll (instant 3) (imageCompletion guestImage)).toOption.map
      fun result => (result.2.stateOf ⟨2⟩, result.2.readyQueue.contains ⟨2⟩)) =
        some (some .ready, true) := by decide +kernel
  rw [hok] at hsucc
  obtain ⟨hready, hqueued⟩ := Prod.mk.inj (Option.some.inj hsucc)
  refine ⟨outcome, s', hok, ?_, hready, hqueued, hreplay [] (instant 30)⟩
  rw [← hjobId, hcompls.job]
  rw [hleased] at hterm
  cases hterm
  rfl

/-- A Lease that outlives the registration it was granted under. -/
def longClaim : JobClaim := { onlyClaim with expiresAt := instant 950 }

/-- A Build whose second Job waits for the first one. -/
def chainBuild : MaterializeBuild := { onlyBuild with jobs := [onlyJob, laterJob] }

/-- A signer that refuses Jobs past their execution deadline. -/
def deadlineRules : CoreRules :=
  { acceptAll with
    signReadyJobSpec := fun template _ _ issuedAt =>
      if issuedAt < instant 5 then some ⟨template.document⟩ else none }

def longRun : List Transaction :=
  [.administer fleet, .materialize onlyBuild, .claim (fun _ => false) longClaim]

def chainRun : List Transaction :=
  [.administer fleet, .materialize chainBuild, .claim (fun _ => false) longClaim]

def nextRun : List Transaction :=
  chainRun ++ [.complete (instant 3) (completion holder .succeeded 3),
    .claim (fun _ => false)
      { onlyClaim with leaseId := ⟨2⟩, fence := ⟨2⟩, claimedAt := instant 4 }]

/-- A reference the configuration accepts, longer than a string of an audit fact. -/
def longImage : String :=
  String.ofList (List.replicate 480 'a') ++ "@sha256:" ++ String.ofList (List.replicate 64 'a')

/-- Five completions of the holder of a current Lease that are not applied: its
    registration is past its own expiry, a successor cannot be signed any more, the id was
    used for another Job, the evidence does not fit the audit fact, or it is a timeout. -/
theorem completion_refused : (((run acceptAll .initial longRun).leases.find? ⟨1⟩).map fun lease =>
      (lease.state, decide (instant 920 < lease.expiresAt))) = some (.active, true) ∧
    ((run acceptAll .initial longRun).registrations.find? ⟨1⟩).map (·.revoked) = some false ∧
    (run acceptAll .initial longRun).durableThrough ⟨1⟩ = 0 ∧
    (run acceptAll .initial longRun).completeJob acceptAll (instant 920)
      (completion holder .succeeded 920) = .error (.fenced ⟨1⟩) ∧
    (run deadlineRules .initial chainRun).completeJob deadlineRules (instant 6)
      (completion holder .succeeded 6) = .error .unavailable ∧
    (run acceptAll .initial nextRun).completeJob acceptAll (instant 5)
      (completion nextHolder .succeeded 5) = .error (.conflict .job) ∧
    (run acceptAll .initial (imageRun longImage)).completeJob acceptAll (instant 3)
      (imageCompletion longImage) = .error .unavailable ∧
    claimed.completeJob acceptAll (instant 3) (completion holder .timedOut 3) =
      .error .unavailable :=
  ⟨by decide +kernel, by decide +kernel, by decide +kernel, errorOf_eq_some.mp (by decide +kernel),
    errorOf_eq_some.mp (by decide +kernel), errorOf_eq_some.mp (by decide +kernel),
    errorOf_eq_some.mp (by decide +kernel), errorOf_eq_some.mp (by decide +kernel)⟩

end Sample

end StoreState

end OctaCity.Store
