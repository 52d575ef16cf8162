/-
  OctaCity.Store.Statements

  What the statements of the store leave behind when they succeed: which
  tables they write, and the row a lookup finds afterwards.  The transactions
  and their invariants use these lemmas and never unfold a statement.
-/
import OctaCity.Store.Writes

namespace OctaCity.Store

open Domain Job Lib List Orchestrator Pipeline Table

/-- The same Job apart from its state, its signature and its requeues. -/
def JobRow.Follows (row row' : JobRow) : Prop :=
  row' = { row with
    state := row'.state
    signedJobSpec := row'.signedJobSpec
    infrastructureRequeues := row'.infrastructureRequeues }

theorem JobRow.follows_refl (row : JobRow) : row.Follows row := rfl

namespace JobRow.Follows

variable {row row' row'' : JobRow}

section

variable (h : row.Follows row')

include h

theorem trans (h' : row'.Follows row'') : row.Follows row'' := by
  rw [Follows] at h h' ⊢
  rw [h', h]

theorem id : row'.id = row.id := by rw [h]

theorem attemptId : row'.attemptId = row.attemptId := by rw [h]

theorem dependencies : row'.dependencies = row.dependencies := by rw [h]

theorem dependencyPolicy : row'.dependencyPolicy = row.dependencyPolicy := by
  rw [h]

theorem jobSpecTemplate : row'.jobSpecTemplate = row.jobSpecTemplate := by
  rw [h]

end

end JobRow.Follows

namespace StoreState

variable {rules : CoreRules} {s s' : StoreState}

/-! ## Lookups and joins -/

variable {jobId : JobId} {lease : LeaseRow} {state : JobState}
  {next : JobId → JobState → JobState} {jobs jobs' : Table JobRow.id} {ids : List JobId}

/-- A Job is located with its Attempt and its Build. -/
theorem locate_eq_some {path : JobPath} : s.locate jobId = some path ↔
      s.jobs.find? jobId = some path.job ∧ s.attempts.find? path.job.attemptId = some path.attempt ∧
          s.builds.find? path.attempt.buildId = some path.build := by
  unfold locate
  simp only [Option.bind_eq_bind, Option.bind_eq_some_iff, Option.some.injEq]
  constructor
  · rintro ⟨job, hjob, attempt, hatt, build, hbuild, rfl⟩
    exact ⟨hjob, hatt, hbuild⟩
  · rintro ⟨hjob, hatt, hbuild⟩
    exact ⟨_, hjob, _, hatt, _, hbuild, rfl⟩

/-- The Jobs of an Attempt, as its foreign key says. -/
theorem mem_attemptJobs {attemptId : AttemptId} {job : JobRow} :
    job ∈ s.attemptJobs attemptId ↔ job ∈ s.jobs.rows ∧ job.attemptId = attemptId := by
  rw [attemptJobs, mem_filter, decide_eq_true_eq]

theorem mem_currentLeases :
    lease ∈ s.currentLeases ↔ lease ∈ s.leases.rows ∧ lease.state.isCurrent = true := by
  rw [currentLeases, mem_filter]

/-- A new row is found under its identity. -/
theorem find?_insertRow {Row κ : Type} [LinearOrder κ] [DecidableEq κ] {key : Row → κ}
    {t t' : Table key} {row : Row} (h : t.insert? row = some t') (id : κ) :
    t'.find? id = if key row = id then some row else t.find? id := by
  convert Table.find?_insert? h id

/-! ## Jobs -/

/-- State of a Job, when there is one. -/
def stateOf (s : StoreState) (jobId : JobId) : Option JobState :=
  (s.jobs.find? jobId).map (·.state)

/-- A state is the state of a Job in the table. -/
theorem stateOf_eq_some :
    s.stateOf jobId = some state ↔ ∃ job, s.jobs.find? jobId = some job ∧ job.state = state :=
  Option.map_eq_some_iff

/-- Every Job is edited in place and its state is moved by `next`. -/
def Edits (next : JobId → JobState → JobState) (before after : Table JobRow.id) : Prop :=
  ∃ (f : JobRow → JobRow) (hkey : ∀ row, (f row).id = row.id), after = before.mapRows f hkey ∧
    ∀ row, row.Follows (f row) ∧ (f row).state = next row.id row.state

theorem Edits.refl (jobs : Table JobRow.id) : Edits (fun _ state => state) jobs jobs :=
  ⟨fun row => row, fun _ => rfl, Table.ext (by simp), fun row => ⟨row.follows_refl, rfl⟩⟩

theorem Edits.trans {next' : JobId → JobState → JobState} {jobs'' : Table JobRow.id}
    (h : Edits next jobs jobs') (h' : Edits next' jobs' jobs'') :
    Edits (fun id state => next' id (next id state)) jobs jobs'' := by
  obtain ⟨f, hf, rfl, hnext⟩ := h
  obtain ⟨g, hg, rfl, hnext'⟩ := h'
  refine ⟨fun row => g (f row), _, mapRows_mapRows jobs f g hf hg, fun row => ⟨?_, ?_⟩⟩
  · exact (hnext row).1.trans (hnext' (f row)).1
  · rw [(hnext' (f row)).2, hf row, (hnext row).2]

theorem Edits.congr {next' : JobId → JobState → JobState}
    (h : Edits next jobs jobs') (heq : ∀ id state, next id state = next' id state) :
    Edits next' jobs jobs' := by
  obtain ⟨f, hf, rfl, hnext⟩ := h
  exact ⟨f, hf, rfl, fun row => ⟨(hnext row).1, by rw [(hnext row).2, heq]⟩⟩

theorem Edits.find? (h : Edits next jobs jobs') {row : JobRow}
    (hrow : jobs.find? jobId = some row) :
    ∃ row', jobs'.find? jobId = some row' ∧ row.Follows row' ∧
      row'.state = next jobId row.state := by
  obtain ⟨f, hf, rfl, hnext⟩ := h
  refine ⟨f row, by rw [mapRows_find?, hrow]; rfl, (hnext row).1, ?_⟩
  rw [(hnext row).2, key_of_find? hrow]

theorem Edits.stateOf (h : Edits next s.jobs s'.jobs)
    (jobId : JobId) : s'.stateOf jobId = (s.stateOf jobId).map (next jobId) := by
  obtain ⟨f, hf, hjobs, hnext⟩ := h
  rw [StoreState.stateOf, StoreState.stateOf, hjobs, mapRows_find?]
  cases hrow : s.jobs.find? jobId with
  | none => rfl
  | some row =>
    simp only [Option.map_some]
    rw [(hnext row).2, key_of_find? hrow]

/-- Edits of Jobs keep the order of the Jobs of an Attempt. -/
theorem Edits.attemptJobs (h : Edits next s.jobs s'.jobs)
    (attemptId : AttemptId) : ∃ f : JobRow → JobRow,
      s'.attemptJobs attemptId = (s.attemptJobs attemptId).map f ∧
        ∀ row, row.Follows (f row) ∧ (f row).state = next row.id row.state := by
  obtain ⟨f, hf, hjobs, hnext⟩ := h
  refine ⟨f, ?_, hnext⟩
  rw [StoreState.attemptJobs, StoreState.attemptJobs, hjobs, mapRows_rows, filter_map]
  congr 2
  funext row
  simp only [Function.comp_apply, (hnext row).1.attemptId]

theorem Edits.updateWhere (jobs : Table JobRow.id) (p : JobRow → Bool) (f : JobRow → JobRow)
    (hkey : ∀ row, (f row).id = row.id) (hf : ∀ row, JobRow.Follows row (f row))
    (hnext : ∀ row, (if p row then f row else row).state = next row.id row.state) :
    Edits next jobs (jobs.updateWhere p f hkey) := by
  refine ⟨fun row => if p row then f row else row, fun row => ?_, rfl, fun row => ⟨?_, hnext row⟩⟩
  · by_cases hp : p row = true
    · simp only [hp, if_true, hkey]
    · simp only [hp, Bool.false_eq_true, if_false]
  · by_cases hp : p row = true
    · simp only [hp, if_true]
      exact hf row
    · simp only [hp, Bool.false_eq_true, if_false]
      exact row.follows_refl

theorem updateJobs_edits (p : JobRow → Bool) (state : JobState)
    (q : JobId → JobState → Bool) (hp : ∀ row, p row = q row.id row.state) :
    Edits (fun id current => if q id current then state else current) s.jobs
      (s.updateJobs p state).jobs := by
  refine Edits.updateWhere _ p _ (JobRow.withState_id state) (fun row => rfl) fun row => ?_
  rw [hp]
  split <;> rfl

/-- The statement runs when it changes exactly as many rows as were listed. -/
theorem updateListedJobs_eq_ok {p : JobRow → Bool} : s.updateListedJobs ids p state = .ok s' ↔
      s.jobs.rows.countP (fun row => row.id ∈ ids ∧ p row) = ids.length ∧
        s' = s.updateJobs (fun row => row.id ∈ ids ∧ p row) state := by
  unfold updateListedJobs
  constructor
  · intro h
    split at h
    · rename_i hcount
      cases h
      exact ⟨hcount, rfl⟩
    · cases h
  · rintro ⟨hcount, rfl⟩
    exact if_pos hcount

/-- The blocked Jobs of a list move, and every one of them was blocked. -/
theorem updateBlockedJobs_eq_ok (h : s.updateBlockedJobs ids state = .ok s') :
    s' = { s with jobs := s'.jobs } ∧
      Edits (fun id current => if id ∈ ids ∧ current = .blocked then state else current) s.jobs
        s'.jobs ∧
      ∀ id ∈ ids, s.stateOf id = some .blocked := by
  unfold updateBlockedJobs at h
  split at h
  · rename_i hempty
    rw [List.isEmpty_iff] at hempty
    subst hempty
    cases h
    exact ⟨rfl, (Edits.refl _).congr fun _ _ => by simp, fun id hid => absurd hid not_mem_nil⟩
  · obtain ⟨hcount, rfl⟩ := updateListedJobs_eq_ok.mp h
    refine ⟨rfl, ?_, fun id hid => ?_⟩
    · exact (updateJobs_edits _ state (fun id current => id ∈ ids ∧ current = .blocked)
        (by simp)).congr (by simp)
    · obtain ⟨row, hrow, hpred⟩ := exists_of_countP
        (fun row hpred => (of_decide_eq_true hpred).1) hcount hid
      exact stateOf_eq_some.mpr ⟨row, hrow, by simpa using (of_decide_eq_true hpred).2⟩

/-- Signing moves no Job. -/
theorem signReadyJobs_eq_ok {issuedAt : Timestamp}
    (h : s.signReadyJobs rules ids issuedAt = .ok s') :
    s' = { s with jobs := s'.jobs } ∧ Edits (fun _ state => state) s.jobs s'.jobs := by
  unfold signReadyJobs at h
  split at h
  · cases h
    exact ⟨rfl, .refl _⟩
  · rw [guard_eq_ok, guard_eq_ok] at h
    cases h.2.2
    refine ⟨rfl, Edits.updateWhere _ _ _ (s.signRow_id rules issuedAt) (fun row => rfl)
      fun row => ?_⟩
    split <;> rfl

/-! ## Ready queue -/

theorem locate_job_id {path : JobPath} (h : s.locate jobId = some path) : path.job.id = jobId :=
  key_of_find? (locate_eq_some.mp h).1

theorem queueEntries_jobIds (ids : List JobId) : (s.queueEntries ids).map (·.jobId) =
      ((s.jobs.rows.filter fun row => row.id ∈ ids).filterMap fun row => s.locate row.id).map
        (·.job.id) := by
  rw [queueEntries, mapIdx_eq_zipIdx_map, map_map]
  have hentry : ((fun entry : ReadyQueueEntry => entry.jobId) ∘ fun x : JobPath × Nat =>
      x.1.entry (s.enqueueOrder + x.2)) = (fun path : JobPath => path.job.id) ∘ Prod.fst := rfl
  rw [hentry, ← map_map, zipIdx_map_fst]

/-- Exactly the listed Jobs arrive in the queue, and none of them was there. -/
theorem enqueue_eq_ok (h : s.enqueue ids = .ok s') :
    s' = { s with readyQueue := s'.readyQueue, enqueueOrder := s'.enqueueOrder } ∧
      (∀ id, s'.readyQueue.contains id = true ↔ s.readyQueue.contains id = true ∨ id ∈ ids) ∧
        ∀ id ∈ ids, s.readyQueue.contains id = false ∧ ∃ path, s.locate id = some path := by
  obtain ⟨readyQueue, hins, h⟩ := bind_eq_ok.mp h
  rw [guard_eq_ok] at h
  obtain ⟨hlen, h⟩ := h
  cases h
  rw [not_not] at hlen
  have hjobIds := s.queueEntries_jobIds ids
  have hsubl : ((s.queueEntries ids).map (·.jobId)).Sublist
      ((s.jobs.rows.filter fun row => row.id ∈ ids).map JobRow.id) := by
    rw [hjobIds]
    exact filterMap_keys_sublist (fun row path hpath => locate_job_id hpath) _
  have hperm : ((s.queueEntries ids).map (·.jobId)).Perm ids := by
    refine perm_of_length ?_ ?_ (by rw [length_map, hlen])
    · exact (s.jobs.keys_nodup.sublist (filter_sublist.map _)).sublist hsubl
    · intro id hid
      obtain ⟨row, hrow, rfl⟩ := mem_map.mp (hsubl.subset hid)
      simpa using (mem_filter.mp hrow).2
  have hmem : ∀ id, (∃ entry ∈ s.queueEntries ids, entry.jobId = id) ↔ id ∈ ids := by
    intro id
    rw [← hperm.mem_iff, mem_map]
  refine ⟨rfl, fun id => ?_, fun id hid => ⟨?_, ?_⟩⟩
  · rw [Table.contains_iff, Table.contains_iff, ← hmem id]
    simp only [mem_insertAll hins, or_and_right, exists_or]
    exact or_comm
  · obtain ⟨entry, hentry, rfl⟩ := (hmem id).mpr hid
    rw [contains_eq_isSome, insertAll_fresh hins hentry]
    rfl
  · rw [← hperm.mem_iff, hjobIds] at hid
    obtain ⟨path, hpath, rfl⟩ := mem_map.mp hid
    obtain ⟨row, -, hrow⟩ := mem_filterMap.mp hpath
    exact ⟨path, by rw [locate_job_id hrow]; exact hrow⟩

/-- The queue gains the listed Jobs, and nothing else changes. -/
theorem enqueueReady_eq_ok (h : s.enqueueReady ids = .ok s') :
    s' = { s with readyQueue := s'.readyQueue, enqueueOrder := s'.enqueueOrder } ∧
      (∀ id, s'.readyQueue.contains id = true ↔ s.readyQueue.contains id = true ∨ id ∈ ids) := by
  unfold enqueueReady at h
  split at h
  · rename_i hempty
    rw [List.isEmpty_iff] at hempty
    cases h
    exact ⟨rfl, fun id => by simp [hempty]⟩
  · obtain ⟨hother, hqueue, -⟩ := enqueue_eq_ok h
    exact ⟨hother, hqueue⟩

theorem dequeue_contains (ids : List JobId) (id : JobId) :
    (s.dequeue ids).readyQueue.contains id = true ↔ s.readyQueue.contains id = true ∧ id ∉ ids := by
  simp only [dequeue, Table.contains_iff, Table.mem_deleteWhere, decide_eq_false_iff_not]
  constructor
  · rintro ⟨entry, ⟨hentry, hfree⟩, rfl⟩
    exact ⟨⟨entry, hentry, rfl⟩, hfree⟩
  · rintro ⟨⟨entry, hentry, rfl⟩, hfree⟩
    exact ⟨entry, ⟨hentry, hfree⟩, rfl⟩

/-- Blocked Jobs of the first list become ready and queued, those of the second
    are skipped. -/
def unblocked (ready skipped : List JobId) (id : JobId) (state : JobState) : JobState :=
  if state = .blocked then
    if id ∈ ready then .ready else if id ∈ skipped then .skipped else .blocked
  else state

theorem unblock_eq_ok {ready skipped : List JobId} {issuedAt : Timestamp}
    (h : unblock rules s ready skipped issuedAt = .ok s') :
    s' = { s with jobs := s'.jobs, readyQueue := s'.readyQueue, enqueueOrder := s'.enqueueOrder } ∧
      Edits (unblocked ready skipped) s.jobs s'.jobs ∧
      (∀ id, s'.readyQueue.contains id = true ↔ s.readyQueue.contains id = true ∨ id ∈ ready) ∧
      ∀ id ∈ ready, s.stateOf id = some .blocked := by
  obtain ⟨s₁, h₁, h⟩ := bind_eq_ok.mp h
  obtain ⟨s₂, h₂, h⟩ := bind_eq_ok.mp h
  obtain ⟨s₃, h₃, h⟩ := bind_eq_ok.mp h
  obtain ⟨hother₁, hedits₁, hblk⟩ := updateBlockedJobs_eq_ok h₁
  obtain ⟨hother₂, hedits₂, -⟩ := updateBlockedJobs_eq_ok h₂
  obtain ⟨hother₃, hedits₃⟩ := signReadyJobs_eq_ok h₃
  obtain ⟨hother, hqueue⟩ := enqueueReady_eq_ok h
  have hjobs : s'.jobs = s₃.jobs := by rw [hother]
  refine ⟨?_, ?_, ?_, hblk⟩
  · rw [hother, hother₃, hother₂, hother₁]
  · rw [hjobs]
    refine ((hedits₁.trans hedits₂).trans hedits₃).congr fun id state => ?_
    unfold unblocked
    by_cases hstate : state = .blocked
    · by_cases hready : id ∈ ready <;> simp [hstate, hready]
    · simp [hstate]
  · intro id
    rw [hqueue, hother₃, hother₂, hother₁]

/-! ## Leases -/

theorem updateLeases_find? (p : LeaseRow → Bool) (state : LeaseState) (leaseId : LeaseId) :
    (s.updateLeases p state).leases.find? leaseId =
      (s.leases.find? leaseId).map fun row => if p row then row.withState state else row :=
  Table.find?_updateWhere _ _ _ (LeaseRow.withState_id state) _

theorem closeLease_find? (leaseId : LeaseId) (state : LeaseState) (id : LeaseId) :
    (s.closeLease leaseId state).leases.find? id =
      (s.leases.find? id).map fun row => if row.id = leaseId then row.withState state else row := by
  rw [closeLease, updateLeases_find?]
  simp

/-- A Lease is new, and its Job had no current one. -/
theorem insertLease_eq_ok (h : s.insertLease lease = .ok s') : s' = { s with leases := s'.leases } ∧
      (∀ id, s'.leases.find? id = if lease.id = id then some lease else s.leases.find? id) ∧
      s.leases.find? lease.id = none ∧
      ∀ row ∈ s.leases.rows, row.jobId = lease.jobId → row.state.isCurrent = false := by
  unfold insertLease at h
  rw [guard_eq_ok] at h
  obtain ⟨hfree, h⟩ := h
  split at h
  · rename_i leases hins
    cases h
    refine ⟨rfl, fun id => find?_insertRow hins id, ?_, fun row hrow hjob => ?_⟩
    · rw [Table.find?_eq_none_iff]
      exact (Table.insert?_eq_some hins).1
    · by_contra hcur
      refine hfree (any_eq_true.mpr ⟨row, hrow, ?_⟩)
      simpa [hjob] using hcur
  · cases h

/-- Only the deadline of the one Lease changes. -/
theorem renewDeadline_eq_ok {leaseId : LeaseId} {expiresAt : Timestamp}
    (h : s.renewDeadline leaseId expiresAt = .ok s') :
    s' = { s with leases := s'.leases } ∧
      ∀ id, s'.leases.find? id =
        (s.leases.find? id).map fun row =>
          if row.id = leaseId then row.withDeadline expiresAt else row := by
  unfold renewDeadline at h
  rw [guard_eq_ok, guard_eq_ok] at h
  cases h.2.2
  refine ⟨rfl, fun id => ?_⟩
  rw [Table.find?_updateWhere]
  simp

/-- A Job leaves the queue for a new Lease. -/
theorem takeJob_eq_ok (h : s.takeJob lease = .ok s') :
    s' = { s with jobs := s'.jobs, readyQueue := s'.readyQueue, leases := s'.leases } ∧
      Edits (fun id state => if id = lease.jobId then .leased else state) s.jobs s'.jobs ∧
      (∀ id, s'.readyQueue.contains id = true ↔
        s.readyQueue.contains id = true ∧ id ≠ lease.jobId) ∧
      (∀ id, s'.leases.find? id = if lease.id = id then some lease else s.leases.find? id) ∧
      s.leases.find? lease.id = none ∧
      ∀ row ∈ s.leases.rows, row.jobId = lease.jobId → row.state.isCurrent = false := by
  obtain ⟨s₁, hins, h⟩ := bind_eq_ok.mp h
  cases h
  obtain ⟨hother, hlses, hfresh, hfree⟩ := insertLease_eq_ok hins
  refine ⟨?_, ?_, fun id => ?_, hlses, hfresh, hfree⟩
  · rw [updateJobs, hother]
    rfl
  · have hjobs : s₁.jobs = s.jobs := by rw [hother]; rfl
    rw [← hjobs]
    exact (updateJobs_edits _ .leased (fun id _ => id = lease.jobId) (by simp)).congr (by simp)
  · have hqueue : s₁.readyQueue = (s.dequeue [lease.jobId]).readyQueue := by rw [hother]
    rw [updateJobs, hqueue, dequeue_contains, mem_singleton]

/-- The Job of the Lease ends, and no other moves. -/
theorem finishJob_edits (lease : LeaseRow) (leaseState : LeaseState) (terminal : JobState) :
    Edits (fun id state => if id = lease.jobId then terminal else state) s.jobs
      (s.finishJob lease leaseState terminal).jobs :=
  (updateJobs_edits _ terminal (fun id _ => id = lease.jobId) (by simp)).congr (by simp)

/-- The Job of the Lease is ready again, and no other moves. -/
theorem releaseJob_edits (lease : LeaseRow) (requeues : Nat) :
    Edits (fun id state => if id = lease.jobId then .ready else state) s.jobs
      (s.releaseJob lease requeues).jobs := by
  refine Edits.updateWhere _ _ _ (JobRow.requeued_id requeues) (fun row => rfl) fun row => ?_
  simp only [decide_eq_true_eq]
  split <;> rfl

/-- States after a cancellation of the listed Jobs. -/
def propagated (cancelled cancelling : List JobId) (id : JobId) (state : JobState) : JobState :=
  if id ∈ cancelling then .cancelling else if id ∈ cancelled then .cancelled else state

theorem propagate_edits (cancelled cancelling : List JobId) :
    Edits (propagated cancelled cancelling) s.jobs (s.propagate cancelled cancelling).jobs := by
  have hcanc := updateJobs_edits (s := s) (fun row => row.id ∈ cancelled) .cancelled
    (fun id _ => id ∈ cancelled) (by simp)
  have hcing := updateJobs_edits
    (s := s.updateJobs (fun row => row.id ∈ cancelled) .cancelled)
    (fun row => row.id ∈ cancelling) .cancelling (fun id _ => id ∈ cancelling) (by simp)
  exact (hcanc.trans hcing).congr fun id state => by simp [propagated]

theorem updateJobs_congr {p q : JobRow → Bool} (state : JobState)
    (h : ∀ row ∈ s.jobs.rows, p row = q row) : s.updateJobs p state = s.updateJobs q state := by
  have hjobs : s.jobs.updateWhere p (JobRow.withState state) (JobRow.withState_id state) =
      s.jobs.updateWhere q (JobRow.withState state) (JobRow.withState_id state) := by
    apply Table.ext
    simp only [Table.updateWhere, mapRows_rows]
    exact map_congr_left fun row hrow => by rw [h row hrow]
  rw [updateJobs, updateJobs, hjobs]

/-! ## Inserts -/

theorem insertBuild_eq_ok {build : BuildRow} (h : s.insertBuild build = .ok s') :
    s' = { s with builds := s'.builds } ∧ s.builds.find? build.id = none ∧
      ∀ id, s'.builds.find? id = if build.id = id then some build else s.builds.find? id := by
  unfold insertBuild at h
  split at h
  · rename_i builds hins
    cases h
    exact ⟨rfl, Table.find?_eq_none_iff.mpr (Table.insert?_eq_some hins).1,
      fun id => find?_insertRow hins id⟩
  · cases h

/-- An Attempt is new, and so is its number in its Build. -/
theorem insertAttempt_eq_ok {attempt : AttemptRow} (h : s.insertAttempt attempt = .ok s') :
    s' = { s with attempts := s'.attempts } ∧ s.attempts.find? attempt.id = none ∧
      (∀ id, s'.attempts.find? id =
        if attempt.id = id then some attempt else s.attempts.find? id) ∧
      ∀ row ∈ s.attempts.rows, row.buildId = attempt.buildId →
        row.attemptNumber ≠ attempt.attemptNumber := by
  unfold insertAttempt at h
  rw [guard_eq_ok] at h
  obtain ⟨huniq, h⟩ := h
  split at h
  · rename_i attempts hins
    cases h
    refine ⟨rfl, Table.find?_eq_none_iff.mpr (Table.insert?_eq_some hins).1,
      fun id => find?_insertRow hins id, fun row hrow hbuild hnum => ?_⟩
    refine huniq (any_eq_true.mpr ⟨row, hrow, ?_⟩)
    simp [hbuild, hnum]
  · cases h

/-- A Job is completed once, by a well-formed row. -/
theorem insertCompletion_eq_ok {row : JobCompletionRow} (h : s.insertCompletion row = .ok s') :
    s' = { s with jobCompletions := s'.jobCompletions } ∧ row.wellFormed = true ∧
      s.jobCompletions.find? row.jobId = none ∧
      ∀ id, s'.jobCompletions.find? id =
        if row.jobId = id then some row else s.jobCompletions.find? id := by
  unfold insertCompletion at h
  rw [guard_eq_ok, guard_eq_ok] at h
  obtain ⟨hwell, -, h⟩ := h
  split at h
  · rename_i jobCompletions hins
    cases h
    exact ⟨rfl, by simpa using hwell,
      Table.find?_eq_none_iff.mpr (Table.insert?_eq_some hins).1,
      fun id => find?_insertRow hins id⟩
  · cases h

/-- A Build is cancelled once. -/
theorem insertCancellation_eq_ok {row : BuildCancellationRow}
    (h : s.insertCancellation row = .ok s') :
    s' = { s with buildCancellations := s'.buildCancellations } ∧
      s.buildCancellations.find? row.buildId = none ∧
      ∀ id, s'.buildCancellations.find? id =
        if row.buildId = id then some row else s.buildCancellations.find? id := by
  unfold insertCancellation at h
  split at h
  · rename_i buildCancellations hins
    cases h
    exact ⟨rfl, Table.find?_eq_none_iff.mpr (Table.insert?_eq_some hins).1,
      fun id => find?_insertRow hins id⟩
  · cases h

/-! ## Materialization -/

theorem mem_rootJobs {jobs : List MaterializedJob} {id : JobId} :
    id ∈ rootJobs jobs ↔ ∃ job ∈ jobs, job.dependencies = [] ∧ job.id = id := by
  simp [rootJobs, and_assoc]

/-- The Jobs of an Attempt are new, its roots are ready and queued. -/
theorem materializeAttempt_eq_ok {attempt : AttemptRow} {jobs : List MaterializedJob}
    {createdAt : Timestamp} (h : s.materializeAttempt rules attempt jobs createdAt = .ok s') :
    s' = { s with
      attempts := s'.attempts
      jobs := s'.jobs
      readyQueue := s'.readyQueue
      enqueueOrder := s'.enqueueOrder } ∧
    s.attempts.find? attempt.id = none ∧
    (∀ id, s'.attempts.find? id = if attempt.id = id then some attempt else s.attempts.find? id) ∧
    (∀ row ∈ s.attempts.rows, row.buildId = attempt.buildId →
      row.attemptNumber ≠ attempt.attemptNumber) ∧
    (∃ table, s.jobs.insertAll (fun _ => StoreError.duplicate .job) (jobs.map (·.row attempt.id)) =
      .ok table ∧ Edits (fun _ state => state) table s'.jobs) ∧
    ∀ id, s'.readyQueue.contains id = true ↔
      s.readyQueue.contains id = true ∨ id ∈ rootJobs jobs := by
  unfold materializeAttempt at h
  obtain ⟨s₁, hatt, h⟩ := bind_eq_ok.mp h
  obtain ⟨s₂, hjobs, h⟩ := bind_eq_ok.mp h
  obtain ⟨s₃, hsign, henq⟩ := bind_eq_ok.mp h
  obtain ⟨table, htable, hjobs⟩ := bind_eq_ok.mp hjobs
  cases hjobs
  obtain ⟨hother₁, hfresh, hatts, hnum⟩ := insertAttempt_eq_ok hatt
  obtain ⟨hother₃, hedits⟩ := signReadyJobs_eq_ok hsign
  obtain ⟨hother, hqueue, -⟩ := enqueue_eq_ok henq
  refine ⟨?_, hfresh, ?_, hnum, ⟨table, ?_, ?_⟩, ?_⟩
  · rw [hother, hother₃, hother₁]
  · intro id
    rw [hother, hother₃]
    exact hatts id
  · rw [hother₁] at htable
    exact htable
  · rw [hother]
    exact hedits
  · intro id
    rw [hqueue, hother₃, hother₁]

end StoreState

end OctaCity.Store
