/-
  OctaCity.Store.EventLog

  The durable events of one Job.  Only an append writes them, and it numbers
  what it adds after the durable cursor: the log of a Job reads 1, 2, 3 and so
  on, whichever Leases delivered it, and the cursor is its length
  (`run_events`).
-/
import OctaCity.Store.Ownership

namespace OctaCity.Store

open Domain Job Lib List Orchestrator Pipeline

/-- The greatest of the numbers from 1 on. -/
theorem foldl_max_range' (n : Nat) : (List.range' 1 n).foldl max 0 = n := by
  induction n with
  | zero => rfl
  | succ n ih =>
    rw [List.range'_1_concat, foldl_append, ih]
    simp
    omega

namespace StoreState

variable {rules : CoreRules} {timed grants : Bool} {s s' : StoreState}

/-- The durable events of a Job, in the order they were accepted. -/
def eventsOf (s : StoreState) (jobId : JobId) : List DurableJobEvent :=
  (s.jobEvents.filter fun row => row.jobId = jobId).map (·.event)

theorem durableThrough_eq (jobId : JobId) :
    s.durableThrough jobId = ((s.eventsOf jobId).map (·.sequence)).foldl max 0 := by
  rw [durableThrough, eventsOf, map_map]
  rfl

theorem insertEvents_eventsOf (jobId other : JobId) (leaseId : LeaseId)
    (events : List DurableJobEvent) : (s.insertEvents jobId leaseId events).eventsOf other =
      s.eventsOf other ++ if other = jobId then events else [] := by
  unfold eventsOf insertEvents
  rw [filter_append, map_append, filter_map, map_map]
  by_cases hjob : other = jobId
  · subst hjob
    simp [Function.comp_def]
  · have hne : ¬ jobId = other := fun h => hjob h.symm
    simp [Function.comp_def, hjob, hne]

/-- Events are written by appends only. -/
theorem WriteIn.jobEvents (h : WriteIn rules timed grants s s') : s'.jobEvents = s.jobEvents ∨
    ∃ jobId leaseId events, s' = s.insertEvents jobId leaseId events ∧
      events.map (·.sequence) = List.range' (s.durableThrough jobId + 1) events.length ∧
      (∀ event ∈ events, event.sequence < 2 ^ 63) ∧
      ∃ lease, s.leases.find? leaseId = some lease ∧ lease.jobId = jobId ∧
        lease.state.isCurrent = true := by
  obtain ⟨hevs, -⟩ | ⟨records, rfl, -⟩ | happended := h.logged
  · exact .inl hevs
  · exact .inl rfl
  · exact .inr happended

/-- The log of every Job is numbered from 1 without gaps, within its column. -/
def Numbered (s : StoreState) : Prop :=
  ∀ jobId, (s.eventsOf jobId).map (·.sequence) = List.range' 1 (s.eventsOf jobId).length ∧
    ∀ event ∈ s.eventsOf jobId, event.sequence < 2 ^ 63

/-- The cursor of a numbered log is its length. -/
theorem Numbered.durableThrough (h : Numbered s) (jobId : JobId) :
    s.durableThrough jobId = (s.eventsOf jobId).length := by
  rw [durableThrough_eq, (h jobId).1, foldl_max_range']

theorem Numbered.write (h : Numbered s) (hwrite : WriteIn rules timed grants s s') : Numbered s' := by
  intro other
  obtain hsame | ⟨jobId, leaseId, events, rfl, hnumd, hbound, -⟩ := hwrite.jobEvents
  · have heq : s'.eventsOf other = s.eventsOf other := by rw [eventsOf, eventsOf, hsame]
    rw [heq]
    exact h other
  · rw [insertEvents_eventsOf]
    by_cases hjob : other = jobId
    · subst hjob
      rw [if_pos rfl]
      constructor
      · -- the new numbers start after the last durable one
        rw [h.durableThrough] at hnumd
        rw [map_append, (h other).1, hnumd, length_append, Nat.add_comm _ 1]
        exact List.range'_append_1
      · intro event hevent
        obtain hold | hnew := mem_append.mp hevent
        · exact (h other).2 event hold
        · exact hbound event hnew
    · rw [if_neg hjob, append_nil]
      exact h other

theorem Reachable.numbered (h : Reachable rules s) : Numbered s :=
  h.induction (P := Numbered) (fun _ => ⟨rfl, fun _ hevent => nomatch hevent⟩)
    fun _ _ hs hwrite => hs.write hwrite

/-- The durable cursor fits its column. -/
theorem Numbered.durableThrough_lt (h : Numbered s) (jobId : JobId) :
    s.durableThrough jobId < 2 ^ 63 := by
  have hnums := (h jobId).1
  rw [← h.durableThrough] at hnums
  obtain hzero | hpos := Nat.eq_zero_or_pos (s.durableThrough jobId)
  · rw [hzero]
    exact Nat.two_pow_pos 63
  · have hlast : s.durableThrough jobId ∈ (s.eventsOf jobId).map (·.sequence) := by
      rw [hnums, mem_range'_1]
      omega
    obtain ⟨event, hevent, hseq⟩ := mem_map.mp hlast
    rw [← hseq]
    exact (h jobId).2 event hevent

/-! ## Recorded appends -/

/-- Only appends record a batch, and the batch is durable when they do. -/
theorem WriteIn.appended (h : WriteIn rules timed grants s s') :
    ∀ record ∈ s'.idempotency.appendJobEvents, record ∈ s.idempotency.appendJobEvents ∨
      ∃ lease, s.leases.find? record.key.1 = some lease ∧
        record.key.2.2 ≤ s.durableThrough lease.jobId := by
  intro record hrecd
  obtain ⟨-, hrecs, -⟩ | ⟨records, rfl, -, happended⟩ | ⟨jobId, leaseId, events, rfl, -⟩ := h.logged
  · rw [hrecs] at hrecd
    exact .inl hrecd
  · exact happended record hrecd
  · exact .inl hrecd

/-- The cursor never moves back. -/
theorem Evolution.durableThrough_le (h : Evolution s s') (jobId : JobId) :
    s.durableThrough jobId ≤ s'.durableThrough jobId := by
  obtain ⟨later, hlater⟩ := h.events
  have hrows : s'.durableThrough jobId =
      ((later.filter fun row => row.jobId = jobId).map (·.event.sequence)).foldl max
        (s.durableThrough jobId) := by
    rw [durableThrough, ← hlater, filter_append, map_append, foldl_append]
    rfl
  rw [hrows]
  exact (foldl_max_bounds _ _).1

/-- A recorded batch is durable to its end. -/
theorem Reachable.appended (h : Reachable rules s) :
    ∀ record ∈ s.idempotency.appendJobEvents, ∃ lease, s.leases.find? record.key.1 = some lease ∧
        record.key.2.2 ≤ s.durableThrough lease.jobId := by
  refine h.induction (P := fun s => ∀ record ∈ s.idempotency.appendJobEvents, ∃ lease,
    s.leases.find? record.key.1 = some lease ∧ record.key.2.2 ≤ s.durableThrough lease.jobId)
    (fun record hrecd => nomatch hrecd) fun s s' hs hwrite record hrecd => ?_
  have hbef : ∃ lease, s.leases.find? record.key.1 = some lease ∧
      record.key.2.2 ≤ s.durableThrough lease.jobId :=
    (hwrite.appended record hrecd).elim (hs record) id
  obtain ⟨lease, hlease, hdur⟩ := hbef
  obtain ⟨lease', hlease', hadvs⟩ := hwrite.evolution.leases.grows _ _ hlease
  refine ⟨lease', hlease', ?_⟩
  rw [hadvs.jobId]
  exact hdur.trans (hwrite.evolution.durableThrough_le lease.jobId)

/-- In every run the log of a Job reads 1, 2, 3 and so on up to its durable cursor, later
    transactions only append to it, and what an append acknowledged stays durable. -/
theorem run_events (rules : CoreRules) (earlier later : List Transaction) (jobId : JobId) :
    let s := run rules .initial earlier
    let s' := run rules s later
    (s.eventsOf jobId).map (·.sequence) = List.range' 1 (s.durableThrough jobId) ∧
      s.eventsOf jobId <+: s'.eventsOf jobId ∧
      ∀ record ∈ s.idempotency.appendJobEvents, ∃ lease, s'.leases.find? record.key.1 = some lease ∧
        record.key.2.2 ≤ s'.durableThrough lease.jobId := by
  intro s s'
  have hs : Reachable rules s := ⟨earlier, rfl⟩
  have hkeeps : s.jobEvents <+: s'.jobEvents ∧
      s.idempotency.appendJobEvents <+: s'.idempotency.appendJobEvents :=
    writes_keep (P := fun x => s.jobEvents <+: x.jobEvents ∧
        s.idempotency.appendJobEvents <+: x.idempotency.appendJobEvents)
      (fun _ _ hx hwrite => ⟨hx.1.trans hwrite.evolution.events,
        hx.2.trans hwrite.evolution.records.appendJobEvents⟩)
      (run_writes rules s later) ⟨prefix_rfl, prefix_rfl⟩
  refine ⟨?_, (hkeeps.1.filter _).map _, fun record hrecd =>
    (hs.after later).appended record (hkeeps.2.subset hrecd)⟩
  rw [hs.numbered.durableThrough]
  exact (hs.numbered jobId).1

end StoreState

end OctaCity.Store
