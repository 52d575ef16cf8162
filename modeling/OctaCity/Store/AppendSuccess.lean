/-
  OctaCity.Store.AppendSuccess

  When the store accepts an event batch of the holder of a Lease.

  A batch that starts right after the durable cursor is new in all its events,
  so no stored event is compared and no record of it exists; what remains are
  the checks of the request and of the chunks its log events are archived in.
-/
import OctaCity.Store.CompleteSuccess

namespace OctaCity.Store

open Domain Job Lib List Orchestrator Pipeline

/-! ## Batches -/

/-- Contiguous events are numbered one after the other. -/
theorem sequences_eq_range' {events : List DurableJobEvent}
    (h : events.IsChain fun a b => a.sequence + 1 = b.sequence) : events.map (·.sequence) =
      List.range' ((events.head?.map (·.sequence)).getD 0) events.length := by
  induction events with
  | nil => rfl
  | cons event rest ih =>
    cases rest with
    | nil => rfl
    | cons next rest =>
      obtain ⟨hnext, hrest⟩ := isChain_cons_cons.mp h
      have htail := ih hrest
      simp only [List.head?_cons, Option.map_some, Option.getD_some] at htail ⊢
      rw [map_cons, htail, ← hnext]
      simp only [length_cons, List.range'_succ]

namespace AppendJobEvents

variable {rules : CoreRules} {request : AppendJobEvents}

theorem validate_eq_ok (h : request.validate rules = .ok ()) : request.events ≠ [] ∧
    request.events.map (·.sequence) = List.range' request.firstSequence request.events.length := by
  unfold validate at h
  rw [guard_eq_ok, guard_eq_ok, guard_eq_ok, guard_eq_ok, not_not] at h
  obtain ⟨hne, -, -, hchain, -⟩ := h
  exact ⟨fun hempty => hne (isEmpty_iff.mpr hempty), sequences_eq_range' hchain⟩

/-- The last number of a valid batch. -/
theorem lastSequence_eq (h : request.validate rules = .ok ()) :
    request.lastSequence + 1 = request.firstSequence + request.events.length := by
  obtain ⟨hne, hnums⟩ := validate_eq_ok h
  have hlast : request.lastSequence = ((request.events.map (·.sequence)).getLast?).getD 0 := by
    rw [List.getLast?_map]
    rfl
  have hpos : 0 < request.events.length := length_pos_iff.mpr hne
  rw [hlast, hnums, List.getLast?_range', if_neg (by omega), Option.getD_some]
  omega

end AppendJobEvents

namespace StoreState

variable {rules : CoreRules} {s s' : StoreState}

/-- Events past the cursor that follow it without a gap are all new. -/
theorem acceptEvents_new {jobId : JobId} {durableThrough : Nat} (events : List DurableJobEvent)
    (expected : Nat) (hnums : events.map (·.sequence) = List.range' expected events.length)
    (hcurs : durableThrough < expected) (hbound : ∀ event ∈ events, event.sequence < 2 ^ 63) :
    s.acceptEvents jobId durableThrough expected events = .ok events := by
  induction events generalizing expected with
  | nil => rfl
  | cons event rest ih =>
    rw [map_cons, length_cons, List.range'_succ, List.cons.injEq] at hnums
    obtain ⟨hseq, hrest⟩ := hnums
    have hnew : ¬ event.sequence ≤ durableThrough := by omega
    have htail := ih (expected + 1) hrest (by omega)
      fun other hother => hbound other (mem_cons_of_mem _ hother)
    unfold acceptEvents
    rw [if_neg hnew, if_neg (not_not.mpr hseq)]
    exact bind_eq_ok.mpr ⟨_, number_isOk (hbound event mem_cons_self) _,
      bind_eq_ok.mpr ⟨_, htail, rfl⟩⟩

/-! ## Log chunks -/

/-- Chunk manifests that can be stored: the logs of the Build are kept, the
    numbers fit their columns, and no identity was used before. -/
structure StorableChunks (s : StoreState) (path : JobPath) (chunks : List LogChunkManifest) :
    Prop where
  visible : chunks = [] ∨ path.build.logsVisible = true
  bounded : ∀ chunk ∈ chunks,
    chunk.firstSequence < 2 ^ 63 ∧ chunk.lastSequence < 2 ^ 63 ∧ chunk.byteLength < 2 ^ 63
  distinct : (chunks.map (·.chunkId)).Nodup ∧ (chunks.map (·.indexingWorkId)).Nodup
  fresh : ∀ row ∈ s.logChunks.rows, ∀ chunk ∈ chunks,
    row.manifest.chunkId ≠ chunk.chunkId ∧ row.manifest.indexingWorkId ≠ chunk.indexingWorkId

variable {path : JobPath}

/-- One chunk is stored, and the later ones stay storable. -/
theorem StorableChunks.insertLogChunk_isOk {chunk : LogChunkManifest}
    {chunks : List LogChunkManifest} (h : StorableChunks s path (chunk :: chunks)) :
    ∃ s', insertLogChunk path s chunk = .ok s' ∧ StorableChunks s' path chunks := by
  obtain ⟨hfirst, hlast, hbytes⟩ := h.bounded chunk mem_cons_self
  let row : LogChunkRow :=
    { manifest := chunk
      buildId := path.build.id
      attemptId := path.attempt.id
      jobId := path.job.id
      projectId := path.build.projectId
      position := s.committedThrough path.build.projectId + 1 }
  obtain ⟨logChunks, hins⟩ := Table.insert?_isSome s.logChunks row fun other hother =>
    (h.fresh other hother chunk mem_cons_self).1
  have hwork : ¬ s.logChunks.rows.any fun other =>
      other.manifest.indexingWorkId = chunk.indexingWorkId := by
    rw [any_eq_true]
    rintro ⟨other, hother, hsame⟩
    exact (h.fresh other hother chunk mem_cons_self).2 (of_decide_eq_true hsame)
  refine ⟨{ s with
    logChunks
    committedThrough := Function.update s.committedThrough path.build.projectId row.position },
    bind_eq_ok.mpr ⟨_, number_isOk hfirst _, bind_eq_ok.mpr ⟨_, number_isOk hlast _,
      bind_eq_ok.mpr ⟨_, number_isOk hbytes _, bind_eq_ok.mpr ⟨logChunks, okOr_eq_ok.mpr hins,
        if_neg hwork⟩⟩⟩⟩, ?_⟩
  obtain ⟨hids, hworks⟩ := h.distinct
  rw [map_cons, nodup_cons] at hids hworks
  refine ⟨.inr (h.visible.resolve_left (cons_ne_nil _ _)),
    fun other hother => h.bounded other (mem_cons_of_mem _ hother), ⟨hids.2, hworks.2⟩,
    fun other hother later hlater => ?_⟩
  obtain rfl | hother := (Table.mem_insert? hins).mp hother
  · exact ⟨fun hsame => hids.1 (mem_map.mpr ⟨later, hlater, hsame.symm⟩),
      fun hsame => hworks.1 (mem_map.mpr ⟨later, hlater, hsame.symm⟩)⟩
  · exact h.fresh other hother later (mem_cons_of_mem _ hlater)

theorem StorableChunks.persistLogChunks_isOk {chunks : List LogChunkManifest}
    (h : StorableChunks s path chunks) : ∃ s', s.persistLogChunks path chunks = .ok s' := by
  have hall : ∃ s', chunks.foldlM (insertLogChunk path) s = .ok s' := by
    induction chunks generalizing s with
    | nil => exact ⟨s, rfl⟩
    | cons chunk rest ih =>
      obtain ⟨s₁, hfirst, hrest⟩ := h.insertLogChunk_isOk
      obtain ⟨s', hlater⟩ := ih hrest
      exact ⟨s', bind_eq_ok.mpr ⟨s₁, hfirst, hlater⟩⟩
  unfold persistLogChunks
  obtain rfl | hvis := h.visible
  · exact ⟨s, rfl⟩
  · split
    · exact ⟨s, rfl⟩
    · rw [hvis]
      exact hall

/-! ## The append -/

variable {now : Timestamp} {lease : LeaseRow} {registration : RegistrationRow}
  {request : AppendJobEvents}

/-- A batch that continues a stream after `delivered` events: valid, numbered
    from the next event on, its log events archived in chunks that can be stored. -/
structure InOrderBatch (rules : CoreRules) (s : StoreState) (path : JobPath) (delivered : Nat)
    (request : AppendJobEvents) : Prop where
  valid : request.validate rules = .ok ()
  next : request.firstSequence = delivered + 1
  bounded : request.lastSequence < 2 ^ 63
  archived : validateNewLogChunks request.events delivered request.logChunks = .ok ()
  storable : StorableChunks s path request.logChunks

theorem startForEvents_isOk {jobId : JobId} {job : JobRow} (hjob : s.jobs.find? jobId = some job)
    (hheld : isHeld job.state = true) (events : List DurableJobEvent) :
    ∃ s', s.startForEvents jobId events = .ok s' := by
  have hstart : ∃ next, startJobExecution job.state = .ok next := by
    cases hstate : job.state <;> rw [hstate] at hheld <;>
      first | exact ⟨_, rfl⟩ | exact absurd hheld Bool.false_ne_true
  obtain ⟨next, hstart⟩ := hstart
  have hpersist : ∃ s', s.persistExecutionStarted jobId = .ok s' := by
    unfold persistExecutionStarted
    rw [hjob]
    simp only [okOr_some, hstart, bind, Except.bind]
    split <;> exact ⟨_, rfl⟩
  unfold startForEvents
  split
  · exact ⟨s, rfl⟩
  · exact hpersist

/-- The holder of a Lease appends the batch that follows the durable cursor. -/
theorem Reachable.appendJobEvents_isOk (h : Reachable rules s)
    (hhold : CurrentHolder s now request.acceptedAt request.lease lease path registration)
    (hbatch : InOrderBatch rules s path (s.durableThrough lease.jobId) request) :
    ∃ s', s.appendJobEvents rules now request =
        .ok (⟨request.lastSequence, request.events.length⟩, s') ∧ s'.jobEvents =
        s.jobEvents ++ request.events.map fun event => ⟨lease.jobId, request.lease.leaseId, event⟩ := by
  obtain ⟨hne, hnums⟩ := AppendJobEvents.validate_eq_ok hbatch.valid
  have hlast := AppendJobEvents.lastSequence_eq hbatch.valid
  have hbdd := hbatch.bounded
  rw [hbatch.next] at hnums hlast
  have hbound : ∀ event ∈ request.events, event.sequence < 2 ^ 63 := by
    intro event hevent
    have hmem : event.sequence ∈ request.events.map (·.sequence) := mem_map_of_mem hevent
    rw [hnums, mem_range'_1] at hmem
    omega
  -- a recorded batch of the Lease would be durable to its end
  have hbegin : beginMutation s.idempotency.appendJobEvents request.key request.fingerprint .job =
      .ok none := by
    refine beginMutation_eq_none.mpr fun record hrecord hkey => ?_
    obtain ⟨recorded, hrecd, hdur⟩ := h.appended record hrecord
    rw [hkey] at hrecd hdur
    have hfound : s.leases.find? request.lease.leaseId = some recorded := hrecd
    rw [hhold.found] at hfound
    cases hfound
    have hpos : 0 < request.events.length := length_pos_iff.mpr hne
    have hkeyLast : request.key.2.2 = request.lastSequence := rfl
    rw [hkeyLast] at hdur
    omega
  obtain ⟨agent, hload⟩ := h.linked.loadLease_isOk hhold.found hhold.located hhold.enrolled
    hhold.agent hhold.epoch hhold.fence now .appendJobEvents
  have hfirst : request.firstSequence < 2 ^ 63 := by
    have hpos : 0 < request.events.length := length_pos_iff.mpr hne
    rw [hbatch.next]
    omega
  have hacc : s.acceptEvents lease.jobId (s.durableThrough lease.jobId)
      (s.durableThrough lease.jobId + 1) request.events = .ok request.events :=
    acceptEvents_new request.events _ hnums (Nat.lt_succ_self _) hbound
  have hid : lease.id = request.lease.leaseId := Table.key_of_find? hhold.found
  have hheld := h.isHeld hhold.found hhold.current hhold.located
  obtain ⟨s₁, hstarted⟩ :=
    startForEvents_isOk (locate_eq_some.mp hhold.located).1 hheld request.events
  have hframe₁ := startForEvents_frame hstarted
  have hstorable : StorableChunks (s₁.insertEvents lease.jobId request.lease.leaseId request.events)
      path request.logChunks :=
    { hbatch.storable with
      fresh := by
        rw [hframe₁]
        exact hbatch.storable.fresh }
  obtain ⟨s₂, hlogs⟩ := hstorable.persistLogChunks_isOk
  have hframe₂ := persistLogChunks_frame hlogs
  have hlastSequence : s.durableThrough lease.jobId + request.events.length =
      request.lastSequence := by omega
  let outcome : AppendJobEventsOutcome := ⟨request.lastSequence, request.events.length⟩
  refine ⟨{ s₂ with idempotency.appendJobEvents :=
      commitMutation s₂.idempotency.appendJobEvents request.key request.fingerprint outcome }, ?_, ?_⟩
  · refine bind_eq_ok.mpr ⟨(), hbatch.valid, bind_eq_ok.mpr ⟨none, hbegin, ?_⟩⟩
    refine bind_eq_ok.mpr ⟨_, hload, bind_eq_ok.mpr ⟨(), hhold.requireCurrent agent,
      bind_eq_ok.mpr ⟨_, number_isOk hfirst _, bind_eq_ok.mpr ⟨_, hacc,
        bind_eq_ok.mpr ⟨(), hbatch.archived, bind_eq_ok.mpr ⟨s₁, hstarted,
          bind_eq_ok.mpr ⟨s₂, hlogs, ?_⟩⟩⟩⟩⟩⟩⟩
    rw [hlastSequence]
  · change s₂.jobEvents = _
    rw [hframe₂, hframe₁]
    rfl

end StoreState

end OctaCity.Store
