/-
  OctaCity.Store.Ownership

  Who owns a Job.  The Jobs, the ready queue and the current Leases of the
  store are an instance of the dispatch model, and every write is a sequence
  of its moves (`WriteIn.moves`): the queue offers exactly the ready Jobs, a held
  Job has exactly one current Lease, and an Agent has one at most.
-/
import OctaCity.Lib.Dispatch
import OctaCity.Store.Evolution

namespace OctaCity.Store

open Domain Job Lib List Orchestrator Pipeline Table

namespace StoreState

variable {rules : CoreRules} {s s' : StoreState}

/-- A Job some Lease owns. -/
def Held (s : StoreState) (jobId : JobId) : Prop :=
  ∃ state, s.stateOf jobId = some state ∧ isHeld state = true

/-- A current Lease with its Job and its Agent. -/
def Owns (s : StoreState) (leaseId : LeaseId) (jobId : JobId) (agentId : AgentId) : Prop :=
  ∃ lease, s.leases.find? leaseId = some lease ∧ lease.state.isCurrent = true ∧
    lease.jobId = jobId ∧ s.ownerOf lease = some agentId

def dispatch (s : StoreState) : Dispatch JobId LeaseId AgentId where
  ready := {id | s.stateOf id = some .ready}
  queued := {id | s.readyQueue.contains id = true}
  held := {id | s.Held id}
  owned := s.Owns

/-! ## What the tables say -/

variable {jobId : JobId} {state : JobState} {lease : LeaseRow} {attempt : AttemptRow}
  {jobs : List MaterializedJob} {createdAt : Timestamp} {job : JobRow}

theorem held_iff_of_stateOf (h : s.stateOf jobId = some state) :
    s.Held jobId ↔ isHeld state = true := by
  constructor
  · rintro ⟨found, hfound, hheld⟩
    rw [h] at hfound
    cases hfound
    exact hheld
  · exact fun hheld => ⟨state, h, hheld⟩

theorem held_congr (h : s'.stateOf jobId = s.stateOf jobId) : s'.Held jobId ↔ s.Held jobId := by
  rw [Held, Held, h]

theorem owns_congr (hlses : s'.leases = s.leases) (hregs : s'.registrations = s.registrations)
    (leaseId : LeaseId) (jobId : JobId) (agentId : AgentId) :
    s'.Owns leaseId jobId agentId ↔ s.Owns leaseId jobId agentId := by
  unfold Owns ownerOf
  rw [hlses, hregs]

/-- Leases that are changed in place own what they owned, as far as they stay current. -/
theorem owns_of_find? {f : LeaseRow → LeaseRow}
    (hlses : ∀ id, s'.leases.find? id = (s.leases.find? id).map f)
    (hregs : s'.registrations = s.registrations)
    (hsame : ∀ row, (f row).jobId = row.jobId ∧ (f row).registrationId = row.registrationId)
    (hcur : ∀ row, (f row).state.isCurrent = row.state.isCurrent)
    (leaseId : LeaseId) (jobId : JobId) (agentId : AgentId) :
    s'.Owns leaseId jobId agentId ↔ s.Owns leaseId jobId agentId := by
  unfold Owns ownerOf
  rw [hlses, hregs]
  constructor
  · rintro ⟨lease', hlease', hown⟩
    obtain ⟨lease, hlease, rfl⟩ := Option.map_eq_some_iff.mp hlease'
    rw [hcur, (hsame lease).1, (hsame lease).2] at hown
    exact ⟨lease, hlease, hown⟩
  · rintro ⟨lease, hlease, hown⟩
    refine ⟨f lease, by rw [hlease]; rfl, ?_⟩
    rw [hcur, (hsame lease).1, (hsame lease).2]
    exact hown

theorem closeLease_owns {state : LeaseState} (hended : state.isCurrent = false)
    (leaseId : LeaseId) (jobId : JobId) (agentId : AgentId) :
    (s.closeLease lease.id state).Owns leaseId jobId agentId ↔
      s.Owns leaseId jobId agentId ∧ leaseId ≠ lease.id := by
  unfold Owns
  rw [closeLease_find?]
  constructor
  · rintro ⟨row', hrow', hcur, hown⟩
    obtain ⟨row, hrow, rfl⟩ := Option.map_eq_some_iff.mp hrow'
    split at hcur
    · rw [LeaseRow.withState, hended] at hcur
      cases hcur
    · rename_i hne
      rw [if_neg hne] at hown
      exact ⟨⟨row, hrow, hcur, hown⟩, fun heq => hne ((key_of_find? hrow).trans heq)⟩
  · rintro ⟨⟨row, hrow, hcur, hown⟩, hne⟩
    rw [← key_of_find? hrow] at hne
    exact ⟨row, by rw [hrow, Option.map_some, if_neg hne], hcur, hown⟩

section

variable (h : s.materializeAttempt rules attempt jobs createdAt = .ok s')

include h

/-- The Job states a materialization adds. -/
theorem materializeAttempt_stateOf (jobId : JobId) (state : JobState) :
    s'.stateOf jobId = some state ↔ s.stateOf jobId = some state ∨
      ∃ job ∈ jobs, job.id = jobId ∧ job.initialState = state := by
  obtain ⟨-, -, -, -, ⟨table, hins, hedits⟩, -⟩ := materializeAttempt_eq_ok h
  have htable : s'.stateOf jobId = ({ s with jobs := table }).stateOf jobId := by
    rw [Edits.stateOf (s := { s with jobs := table }) hedits, Option.map_id']
  rw [htable, stateOf_eq_some, stateOf_eq_some]
  simp only [Table.find?_eq_some_iff, mem_insertAll hins, mem_map]
  constructor
  · rintro ⟨row, ⟨⟨job, hjob, rfl⟩ | hrow, hid⟩, hstate⟩
    · exact .inr ⟨job, hjob, hid, hstate⟩
    · exact .inl ⟨row, ⟨hrow, hid⟩, hstate⟩
  · rintro (⟨row, ⟨hrow, hid⟩, hstate⟩ | ⟨job, hjob, hid, hstate⟩)
    · exact ⟨row, ⟨.inr hrow, hid⟩, hstate⟩
    · exact ⟨_, ⟨.inl ⟨job, hjob, rfl⟩, hid⟩, hstate⟩

theorem materializeAttempt_fresh {job : MaterializedJob} (hjob : job ∈ jobs) :
    s.stateOf job.id = none := by
  obtain ⟨-, -, -, -, ⟨table, hins, -⟩, -⟩ := materializeAttempt_eq_ok h
  have hfresh := insertAll_fresh hins (mem_map_of_mem hjob)
  rw [stateOf]
  change (s.jobs.find? job.id).map _ = none
  rw [show s.jobs.find? job.id = none from hfresh]
  rfl

end

/-! ## Moves -/

abbrev Moves (grants : Bool) :
    Dispatch JobId LeaseId AgentId → Dispatch JobId LeaseId AgentId → Prop :=
  Relation.ReflTransGen (Dispatch.Move grants)

variable {timed grants : Bool}

/-- A write that leaves every Job, entry and Lease where it was. -/
theorem moves_of_same (hready : ∀ id, s'.stateOf id = some .ready ↔ s.stateOf id = some .ready)
    (hqueued : ∀ id, s'.readyQueue.contains id = true ↔ s.readyQueue.contains id = true)
    (hheld : ∀ id, s'.Held id ↔ s.Held id)
    (howned : ∀ l j a, s'.Owns l j a ↔ s.Owns l j a) : Moves grants s.dispatch s'.dispatch := by
  have heq : s'.dispatch = s.dispatch := by
    apply Dispatch.ext
    · exact Set.ext hready
    · exact Set.ext hqueued
    · exact Set.ext hheld
    · exact funext fun l => funext fun j => funext fun a => propext (howned l j a)
  rw [heq]

/-- New ready Jobs arrive in the queue. -/
theorem moves_of_offer (items : Set JobId) (hfree : ∀ id ∈ items, ¬ s.Held id)
    (hready : ∀ id, s'.stateOf id = some .ready ↔ s.stateOf id = some .ready ∨ id ∈ items)
    (hqueued : ∀ id, s'.readyQueue.contains id = true ↔
      s.readyQueue.contains id = true ∨ id ∈ items) (hheld : ∀ id, s'.Held id ↔ s.Held id)
    (howned : ∀ l j a, s'.Owns l j a ↔ s.Owns l j a) : Moves grants s.dispatch s'.dispatch := by
  have hmove : Dispatch.Move grants s.dispatch _ := .offer items hfree
  have heq : s'.dispatch =
      { s.dispatch with
        ready := s.dispatch.ready ∪ items
        queued := s.dispatch.queued ∪ items } := by
    apply Dispatch.ext
    · exact Set.ext hready
    · exact Set.ext hqueued
    · exact Set.ext hheld
    · exact funext fun l => funext fun j => funext fun a => propext (howned l j a)
  rw [heq]
  exact .single hmove

theorem mem_rootJobs_iff {id : JobId} :
    id ∈ rootJobs jobs ↔ ∃ job ∈ jobs, job.id = id ∧ job.initialState = .ready := by
  simp only [mem_rootJobs, MaterializedJob.initialState, List.isEmpty_iff]
  refine exists_congr fun job => and_congr_right fun _ => ?_
  by_cases hroot : job.dependencies = [] <;> simp [hroot]

theorem isHeld_initialState (job : MaterializedJob) : isHeld job.initialState = false := by
  unfold MaterializedJob.initialState
  split <;> rfl

/-- Materialized roots are offered. -/
theorem materializeAttempt_moves (h : s.materializeAttempt rules attempt jobs createdAt = .ok s') :
    Moves grants s.dispatch s'.dispatch := by
  obtain ⟨hother, -, -, -, -, hqueue⟩ := materializeAttempt_eq_ok h
  have hlses : s'.leases = s.leases := by rw [hother]
  have hregs : s'.registrations = s.registrations := by rw [hother]
  refine moves_of_offer {id | id ∈ rootJobs jobs} ?_ ?_ hqueue ?_ (owns_congr hlses hregs)
  · rintro id hid ⟨state, hstate, -⟩
    obtain ⟨job, hjob, rfl, -⟩ := mem_rootJobs_iff.mp hid
    rw [materializeAttempt_fresh h hjob] at hstate
    cases hstate
  · intro id
    exact (materializeAttempt_stateOf h id .ready).trans (or_congr_right mem_rootJobs_iff.symm)
  · intro id
    simp only [Held, materializeAttempt_stateOf h, or_and_right, exists_or]
    refine or_iff_left ?_
    rintro ⟨state, ⟨job, -, -, rfl⟩, hheld⟩
    rw [isHeld_initialState] at hheld
    cases hheld

theorem take_moves {registration : RegistrationRow} (hgrant : grants = true)
    (hjob : s.jobs.find? lease.jobId = some job) (hready : job.state = .ready)
    (hreg : s.registrations.find? lease.registrationId = some registration)
    (hfree : s.ownsLease registration.agentId = false) (hact : lease.state = .active)
    (htake : s.takeJob lease = .ok s') : Moves grants s.dispatch s'.dispatch := by
  obtain ⟨hother, hedits, hqueue, hlses, hfresh, -⟩ := takeJob_eq_ok htake
  have hregs : s'.registrations = s.registrations := by rw [hother]
  have hsame : ∀ row : LeaseRow, s'.ownerOf row = s.ownerOf row := by
    intro row
    rw [ownerOf, ownerOf, hregs]
  have howner : s.ownerOf lease = some registration.agentId := by
    rw [ownerOf, hreg]
    rfl
  have hstate : s.stateOf lease.jobId = some .ready := stateOf_eq_some.mpr ⟨job, hjob, hready⟩
  have hmove : Dispatch.Move grants s.dispatch _ := .take lease.id lease.jobId registration.agentId
    hgrant hstate
    (by
      rintro item worker ⟨row, hrow, -⟩
      rw [hfresh] at hrow
      cases hrow)
    (by
      rintro leaseId item ⟨row, hrow, hcur, -, howns⟩
      have howned : s.ownsLease registration.agentId = true :=
        any_eq_true.mpr ⟨row, mem_currentLeases.mpr ⟨mem_of_find? hrow, hcur⟩,
          decide_eq_true howns⟩
      rw [hfree] at howned
      cases howned)
  have heq : s'.dispatch =
      { ready := s.dispatch.ready \ {lease.jobId}
        queued := s.dispatch.queued \ {lease.jobId}
        held := insert lease.jobId s.dispatch.held
        owned := fun l j a => s.Owns l j a ∨
          l = lease.id ∧ j = lease.jobId ∧ a = registration.agentId } := by
    apply Dispatch.ext
    · ext id
      change s'.stateOf id = some .ready ↔ s.stateOf id = some .ready ∧ id ≠ lease.jobId
      rw [hedits.stateOf]
      by_cases hid : id = lease.jobId <;> simp [hid]
    · exact Set.ext hqueue
    · ext id
      change s'.Held id ↔ id = lease.jobId ∨ s.Held id
      unfold Held
      rw [hedits.stateOf]
      by_cases hid : id = lease.jobId
      · subst hid
        simp [hstate, isHeld]
      · simp [hid]
    · funext leaseId jobId agentId
      apply propext
      change s'.Owns leaseId jobId agentId ↔ _
      unfold Owns
      simp only [hlses, hsame]
      by_cases hid : lease.id = leaseId
      · subst hid
        rw [if_pos rfl, hfresh]
        constructor
        · rintro ⟨row, hrow, -, rfl, howns⟩
          cases hrow
          rw [howner] at howns
          exact .inr ⟨rfl, rfl, (Option.some.inj howns).symm⟩
        · rintro (⟨row, hrow, -⟩ | ⟨-, rfl, rfl⟩)
          · cases hrow
          · exact ⟨lease, rfl, by rw [hact]; rfl, rfl, howner⟩
      · simp [hid, Ne.symm hid]
  rw [heq]
  exact .single hmove

/-- The owner of a Lease gives its Job up. -/
theorem close_move (hlink : Linked s) {leaseState : LeaseState}
    (hlease : s.leases.find? lease.id = some lease)
    (hcur : lease.state.isCurrent = true) (hended : leaseState.isCurrent = false)
    (hjob : s.jobs.find? lease.jobId = some job) (hstate : isHeld state = false)
    (hedits : Edits (fun id current => if id = lease.jobId then state else current) s.jobs s'.jobs)
    (hlses : s'.leases = (s.closeLease lease.id leaseState).leases)
    (hregs : s'.registrations = s.registrations) : Dispatch.Move grants s.dispatch
      ⟨s.dispatch.ready, s.dispatch.queued, s'.dispatch.held, s'.dispatch.owned⟩ := by
  obtain ⟨agentId, howner⟩ := hlink.ownerOf hlease
  have hmove : Dispatch.Move grants s.dispatch _ := .finish lease.id lease.jobId agentId
    ⟨lease, hlease, hcur, rfl, howner⟩
  have hheld : s'.dispatch.held = s.dispatch.held \ {lease.jobId} := by
    ext id
    change s'.Held id ↔ s.Held id ∧ id ≠ lease.jobId
    unfold Held
    rw [hedits.stateOf]
    by_cases hid : id = lease.jobId
    · subst hid
      simp [stateOf_eq_some.mpr ⟨job, hjob, rfl⟩, hstate]
    · simp [hid]
  have howned : s'.dispatch.owned = fun l j a => s.Owns l j a ∧ l ≠ lease.id := by
    funext l j a
    apply propext
    rw [← closeLease_owns hended]
    exact owns_congr hlses hregs l j a
  rw [hheld, howned]
  exact hmove

theorem not_ready_of_isHeld (hjob : s.jobs.find? jobId = some job)
    (hheld : isHeld job.state = true) : s.stateOf jobId ≠ some .ready := by
  intro hready
  obtain ⟨found, hfound, hstate⟩ := stateOf_eq_some.mp hready
  rw [hjob] at hfound
  cases hfound
  rw [hstate] at hheld
  cases hheld

theorem not_held_of_isTerminal (h : state.isTerminal = true) :
    isHeld state = false ∧ state ≠ .ready := by
  cases state <;> cases h <;> exact ⟨rfl, by simp⟩

section

variable (hlink : Linked s) (hlease : s.leases.find? lease.id = some lease)
  (hcur : lease.state.isCurrent = true)

include hlink hlease hcur

theorem finish_moves {leaseState : LeaseState} {terminal : JobState}
    (hended : leaseState.isCurrent = false) (hjob : s.jobs.find? lease.jobId = some job)
    (hheld : isHeld job.state = true) (hterm : terminal.isTerminal = true) :
    Moves grants s.dispatch (s.finishJob lease leaseState terminal).dispatch := by
  obtain ⟨hfree, hnotReady⟩ := not_held_of_isTerminal hterm
  have hedits := finishJob_edits (s := s) lease leaseState terminal
  have hmove : Dispatch.Move grants _ _ := close_move hlink hlease hcur hended hjob hfree hedits rfl rfl
  have hready : (s.finishJob lease leaseState terminal).dispatch.ready = s.dispatch.ready := by
    ext id
    change (s.finishJob lease leaseState terminal).stateOf id = some .ready ↔
      s.stateOf id = some .ready
    rw [hedits.stateOf]
    by_cases hid : id = lease.jobId
    · subst hid
      simp [not_ready_of_isHeld hjob hheld, hnotReady]
    · simp [hid]
  rw [← hready] at hmove
  exact .single hmove

theorem requeue_moves {path : JobPath} {requeues : Nat} (hpath : s.locate lease.jobId = some path)
    (henq : (s.releaseJob lease requeues).enqueue [lease.jobId] = .ok s') :
    Moves grants s.dispatch s'.dispatch := by
  obtain ⟨hother, hqueue, -⟩ := enqueue_eq_ok henq
  have hjob := (locate_eq_some.mp hpath).1
  have hedits : Edits (fun id state => if id = lease.jobId then .ready else state) s.jobs s'.jobs := by
    rw [hother]
    exact releaseJob_edits lease requeues
  have hlses : s'.leases = (s.closeLease lease.id .expired).leases := by rw [hother]; rfl
  have hregs : s'.registrations = s.registrations := by rw [hother]; rfl
  have hclose : Dispatch.Move grants _ _ := close_move hlink hlease hcur
    (show LeaseState.isCurrent .expired = false from rfl) hjob (by rfl) hedits hlses hregs
  have hoffer : Dispatch.Move grants
      ⟨s.dispatch.ready, s.dispatch.queued, s'.dispatch.held, s'.dispatch.owned⟩ _ :=
    .offer {lease.jobId}
      (by
        rintro id rfl hheld
        change s'.Held lease.jobId at hheld
        unfold Held at hheld
        rw [hedits.stateOf, stateOf_eq_some.mpr ⟨_, hjob, rfl⟩] at hheld
        simp [isHeld] at hheld)
  have heq : s'.dispatch =
      { ready := s.dispatch.ready ∪ {lease.jobId}
        queued := s.dispatch.queued ∪ {lease.jobId}
        held := s'.dispatch.held
        owned := s'.dispatch.owned } := by
    apply Dispatch.ext
    · ext id
      change s'.stateOf id = some .ready ↔ s.stateOf id = some .ready ∨ id = lease.jobId
      rw [hedits.stateOf]
      by_cases hid : id = lease.jobId
      · subst hid
        simp [stateOf_eq_some.mpr ⟨_, hjob, rfl⟩]
      · simp [hid]
    · ext id
      change s'.readyQueue.contains id = true ↔ s.readyQueue.contains id = true ∨ id = lease.jobId
      rw [hqueue, mem_singleton]
      rfl
    · rfl
    · rfl
  rw [heq]
  exact (Relation.ReflTransGen.single hclose).tail hoffer

end

theorem unblock_moves {ready skipped : List JobId} {issuedAt : Timestamp}
    (hunblk : unblock rules s ready skipped issuedAt = .ok s') :
    Moves grants s.dispatch s'.dispatch := by
  obtain ⟨hother, hedits, hqueue, hblk⟩ := unblock_eq_ok hunblk
  have hlses : s'.leases = s.leases := by rw [hother]
  have hregs : s'.registrations = s.registrations := by rw [hother]
  refine moves_of_offer {id | id ∈ ready} ?_ ?_ hqueue ?_ (owns_congr hlses hregs)
  · intro id hid
    rw [held_iff_of_stateOf (hblk id hid)]
    exact Bool.false_ne_true
  · intro id
    rw [hedits.stateOf]
    change _ ↔ s.stateOf id = some .ready ∨ id ∈ ready
    by_cases hid : id ∈ ready
    · simp [hblk id hid, hid, unblocked]
    · cases hstate : s.stateOf id with
      | none => simp [hid]
      | some state =>
        by_cases hskip : state = .blocked
        · by_cases hmem : id ∈ skipped <;> simp [hid, unblocked, hskip, hmem]
        · simp [hid, unblocked, hskip]
  · intro id
    unfold Held
    rw [hedits.stateOf]
    cases hstate : s.stateOf id with
    | none => simp
    | some state =>
      by_cases hskip : state = .blocked
      · by_cases hid : id ∈ ready <;> by_cases hmem : id ∈ skipped <;>
          simp [hid, unblocked, hskip, hmem, isHeld]
      · simp [unblocked, hskip]

theorem begin_moves (jobId : JobId) : Moves grants s.dispatch
      (s.updateJobs (fun row => row.id = jobId ∧ row.state = .leased) .running).dispatch := by
  have hedits := updateJobs_edits (s := s) (fun row => row.id = jobId ∧ row.state = .leased) .running
    (fun id state => id = jobId ∧ state = .leased) (by simp)
  refine moves_of_same (fun id => ?_) (fun id => Iff.rfl) (fun id => ?_) fun l j a => Iff.rfl
  · rw [hedits.stateOf]
    cases hstate : s.stateOf id with
    | none => simp
    | some state => by_cases hleased : id = jobId ∧ state = .leased <;> simp [hleased]
  · unfold Held
    rw [hedits.stateOf]
    cases hstate : s.stateOf id with
    | none => simp
    | some state => by_cases hleased : id = jobId ∧ state = .leased <;> simp [hleased, isHeld]

theorem redirect_moves (p : LeaseRow → Bool) {state : LeaseState}
    (hdir : state = .drainRequested ∨ state = .cancellationRequested) :
    Moves grants s.dispatch (s.redirectLeases p state).dispatch := by
  have hcur : state.isCurrent = true := by obtain rfl | rfl := hdir <;> rfl
  refine moves_of_same (fun id => Iff.rfl) (fun id => Iff.rfl) (fun id => Iff.rfl)
    (owns_of_find? (updateLeases_find? _ _) rfl (fun row => ?_) fun row => ?_)
  · split <;> exact ⟨rfl, rfl⟩
  · split
    · rename_i htakes
      rw [LeaseRow.withState, hcur, takesDirective_isCurrent (of_decide_eq_true htakes).2]
    · rfl

theorem renew_moves {leaseId : LeaseId} {expiresAt : Timestamp}
    (hrenew : s.renewDeadline leaseId expiresAt = .ok s') : Moves grants s.dispatch s'.dispatch := by
  obtain ⟨hother, hlses⟩ := renewDeadline_eq_ok hrenew
  have hregs : s'.registrations = s.registrations := by rw [hother]
  refine moves_of_same (fun id => by rw [hother]; rfl) (fun id => by rw [hother])
    (fun id => held_congr (by rw [hother]; rfl))
    (owns_of_find? hlses hregs (fun row => ?_) fun row => ?_)
  · split <;> exact ⟨rfl, rfl⟩
  · split <;> rfl

theorem administer_moves (hlink : Linked s) {change : Administration}
    (hallow : change.isAllowed s = true) : Moves grants s.dispatch (s.administer change).dispatch := by
  refine moves_of_same (fun id => Iff.rfl) (fun id => Iff.rfl) (fun id => Iff.rfl) fun l j a => ?_
  refine exists_congr fun lease => and_congr_right fun hlease => and_congr_right fun _ =>
    and_congr_right fun _ => ?_
  -- the registration of a Lease stays and keeps its Agent
  obtain ⟨registration, hreg⟩ := hlink.registration l lease hlease
  obtain ⟨registration', hreg', hadvs⟩ :=
    (Administration.evolves hallow).2.grows _ _ hreg
  have howner : (s.administer change).ownerOf lease = s.ownerOf lease := by
    rw [ownerOf, ownerOf, hreg]
    change (change.registrations.find? _).map _ = _
    rw [hreg', Option.map_some, Option.map_some,
      RegistrationRow.Advances.agentId hadvs]
  rw [howner]

/-- Jobs nobody owns yet leave the queue for good. -/
theorem cancel_moves {cancelled cancelling : List JobId}
    {attemptState : AttemptState} {buildState : BuildState} {row : BuildCancellationRow}
    (hcancels : Cancels s attempt.id cancelled cancelling)
    (hins : ((s.propagate cancelled cancelling).aggregate attempt.id attempt.buildId attemptState
      buildState).insertCancellation row = .ok s') : Moves grants s.dispatch s'.dispatch := by
  obtain ⟨hother, -, -⟩ := insertCancellation_eq_ok hins
  rw [aggregate_eq, propagate_eq] at hother
  have hedits : Edits (propagated cancelled cancelling) s.jobs s'.jobs := by
    rw [hother]
    exact propagate_edits cancelled cancelling
  have hlses : s'.leases = (s.redirectLeases (fun row => row.jobId ∈ cancelling)
      .cancellationRequested).leases := by
    rw [hother]
    exact propagate_leases cancelled cancelling
  have hregs : s'.registrations = s.registrations := by rw [hother]
  have hqueue : ∀ id, s'.readyQueue.contains id = true ↔
      s.readyQueue.contains id = true ∧ id ∉ cancelled := by
    intro id
    rw [hother]
    exact dequeue_contains (s := s) cancelled id
  have hfree : ∀ id ∈ cancelled,
      s.stateOf id = some .blocked ∨ s.stateOf id = some .ready := by
    intro id hid
    obtain ⟨job, hjob, rfl, hstate⟩ := (hcancels.cancelled id).mp hid
    rw [attemptJobs_stateOf hjob]
    obtain hstate | hstate := hstate <;> simp [hstate]
  have hbusy : ∀ id ∈ cancelling,
      s.stateOf id = some .leased ∨ s.stateOf id = some .running := by
    intro id hid
    obtain ⟨job, hjob, rfl, hstate⟩ := (hcancels.cancelling id).mp hid
    rw [attemptJobs_stateOf hjob]
    obtain hstate | hstate := hstate <;> simp [hstate]
  have hready : ∀ id, s'.stateOf id = some .ready ↔
      s.stateOf id = some .ready ∧ id ∉ cancelled := by
    intro id
    rw [hedits.stateOf]
    by_cases hcing : id ∈ cancelling
    · obtain hstate | hstate := hbusy id hcing <;> simp [propagated, hcing, hstate]
    · by_cases hcanc : id ∈ cancelled <;> simp [propagated, hcing, hcanc]
  have hheld : ∀ id, s'.Held id ↔ s.Held id := by
    intro id
    unfold Held
    rw [hedits.stateOf]
    by_cases hcing : id ∈ cancelling
    · obtain hstate | hstate := hbusy id hcing <;>
        simp [propagated, hcing, hstate, isHeld]
    · by_cases hcanc : id ∈ cancelled
      · obtain hstate | hstate := hfree id hcanc <;>
          simp [propagated, hcing, hcanc, hstate, isHeld]
      · simp [propagated, hcing, hcanc]
  have howned : ∀ l j a, s'.Owns l j a ↔ s.Owns l j a := by
    refine owns_of_find? (fun id => by rw [hlses]; exact updateLeases_find? _ _ id) hregs
      (fun row => ?_) fun row => ?_
    · split <;> exact ⟨rfl, rfl⟩
    · split
      · rename_i htakes
        rw [takesDirective_isCurrent (of_decide_eq_true htakes).2]
        rfl
      · rfl
  have hmove : Dispatch.Move grants s.dispatch _ := .withdraw {id | id ∈ cancelled}
  have heq : s'.dispatch =
      { s.dispatch with
        ready := s.dispatch.ready \ {id | id ∈ cancelled}
        queued := s.dispatch.queued \ {id | id ∈ cancelled} } := by
    apply Dispatch.ext
    · exact Set.ext hready
    · exact Set.ext hqueue
    · exact Set.ext hheld
    · exact funext fun l => funext fun j => funext fun a => propext (howned l j a)
  rw [heq]
  exact .single hmove

/-- Every write is a sequence of moves of the dispatcher. -/
theorem WriteIn.moves (hlink : Linked s) (h : WriteIn rules timed grants s s') :
    Moves grants s.dispatch s'.dispatch := by
  cases h with
  | administer hallow => exact administer_moves hlink hallow
  | accept hbuild hins hatt hstate hgraph hmat =>
    have hmoves : Moves grants _ _ := materializeAttempt_moves hmat
    rw [(insertBuild_eq_ok hins).1] at hmoves
    exact hmoves
  | retry hbuild hfailed hsrc hlost hnum hstate hgraph hmat =>
    have hmoves : Moves grants _ _ := materializeAttempt_moves hmat
    exact hmoves
  | take hgrant hjob hready hreg hfree hact htake =>
    exact take_moves hgrant hjob hready hreg hfree hact htake
  | renew htimed hlease hcur hrenew => exact renew_moves hrenew
  | begin => exact begin_moves _
  | finish huntim hlease hcur hended hjob hheld hterm =>
    exact finish_moves hlink hlease hcur hended hjob hheld hterm
  | requeue htimed hlease hcur hpath hstate henq =>
    exact requeue_moves hlink hlease hcur hpath henq
  | unblock hunblk => exact unblock_moves hunblk
  | complete hjob hterm hlease hsame hins =>
    rw [(insertCompletion_eq_ok hins).1]
    exact .refl
  | cancel hbuild hatt hact hcanc hcing hterm hnfail hins =>
    exact cancel_moves ⟨hcanc, hcing⟩ hins
  | redirect hdir => exact redirect_moves _ hdir
  | record | agents | pools | hideLogs | events | logs | aggregate | workerClaims => exact .refl

/-! ## Reachable stores -/

theorem dispatch_initial : StoreState.initial.dispatch.Sound := by
  have heq : StoreState.initial.dispatch = ⟨∅, ∅, ∅, fun _ _ _ => False⟩ := by
    apply Dispatch.ext
    · ext id
      exact ⟨fun h => (nomatch h), False.elim⟩
    · ext id
      exact ⟨fun h => (nomatch h), False.elim⟩
    · ext id
      exact ⟨fun ⟨state, h, _⟩ => (nomatch h), False.elim⟩
    · funext l j a
      apply propext
      exact ⟨fun ⟨lease, h, _⟩ => (nomatch h), False.elim⟩
  rw [heq]
  exact Dispatch.sound_empty

theorem WritesIn.moves (h : WritesIn rules timed grants s s') (hlink : Linked s) :
    Linked s' ∧ Moves grants s.dispatch s'.dispatch := by
  induction h with
  | refl => exact ⟨hlink, .refl⟩
  | tail _ hwrite ih =>
    exact ⟨ih.1.evolution hwrite.evolution, ih.2.trans (hwrite.moves ih.1)⟩

/-- The Jobs, the queue and the Leases of a reachable store are in step. -/
theorem Reachable.sound (h : Reachable rules s) : s.dispatch.Sound := by
  obtain ⟨transactions, rfl⟩ := h
  exact dispatch_initial.moves ((run_writes rules _ transactions).moves linked_initial).2

/-- Every run refines the dispatch model: it offers, withdraws, hands out and finishes
    Jobs, and does nothing else to the queue and the current Leases; only a claim hands one out. -/
theorem run_dispatches (rules : CoreRules) (earlier later : List Transaction) :
    let s := run rules .initial earlier
    Moves true s.dispatch (s.run rules later).dispatch ∧
      ∀ transaction, Moves transaction.isClaim s.dispatch (s.step rules transaction).dispatch := by
  have hlink := (WritesIn.moves (run_writes rules _ earlier) linked_initial).1
  refine ⟨(WritesIn.moves (run_writes rules _ later) hlink).2, fun transaction => ?_⟩
  unfold step
  cases hres : (run rules .initial earlier).execute rules transaction with
  | ok s' =>
    have hwrites : WritesIn rules true _ _ s' := execute_writes (fun _ => rfl) id hres
    exact (hwrites.moves hlink).2
  | error _ => exact .refl

theorem Reachable.completed (h : Reachable rules s)
    (hcompd : s.jobCompletions.contains jobId = true) :
    ∃ state, s.stateOf jobId = some state ∧ state.isTerminal = true := by
  refine h.induction (P := fun s => ∀ jobId, s.jobCompletions.contains jobId = true →
    ∃ state, s.stateOf jobId = some state ∧ state.isTerminal = true) ?_ ?_ jobId hcompd
  · intro jobId h
    cases h
  · intro s s' hs hwrite jobId hcompd
    rw [contains_eq_isSome, Option.isSome_iff_exists] at hcompd
    obtain ⟨row, hrow⟩ := hcompd
    have hwrites : Writes rules s s' := .single hwrite
    obtain ⟨before, hbef, -⟩ | ⟨-, -, -, hended⟩ :=
      hwrite.evolution.completions.origin jobId row hrow
    · obtain ⟨state, hstate, hterm⟩ := hs jobId (by
        rw [contains_eq_isSome, hbef]
        rfl)
      exact ⟨state, hwrites.stateOf_terminal hstate hterm, hterm⟩
    · rw [key_of_find? hrow] at hended
      exact hended

/-! ## Consistency of the tables -/

/-- The tables of Jobs, queue entries, Leases and completions agree. -/
structure Consistent (s : StoreState) : Prop where
  queued_iff : ∀ job ∈ s.jobs.rows, s.readyQueue.contains job.id = true ↔ job.state = .ready
  queued_job : ∀ entry ∈ s.readyQueue.rows, ∃ job ∈ s.jobs.rows, job.id = entry.jobId
  held : ∀ job ∈ s.jobs.rows, isHeld job.state = true →
    ∃! lease, lease ∈ s.currentLeases ∧ lease.jobId = job.id
  free : ∀ job ∈ s.jobs.rows, isHeld job.state = false → ∀ lease ∈ s.currentLeases,
    lease.jobId ≠ job.id
  single : ∀ agentId, ∀ lease ∈ s.currentLeases, ∀ lease' ∈ s.currentLeases,
    s.ownerOf lease = some agentId → s.ownerOf lease' = some agentId → lease = lease'
  completed : ∀ row ∈ s.jobCompletions.rows, ∃ job ∈ s.jobs.rows, job.id = row.jobId ∧
    job.state.isTerminal = true

theorem stateOf_of_mem (hjob : job ∈ s.jobs.rows) : s.stateOf job.id = some job.state :=
  stateOf_eq_some.mpr ⟨job, Table.find?_of_mem _ hjob, rfl⟩

theorem mem_of_stateOf (h : s.stateOf jobId = some state) :
    ∃ job ∈ s.jobs.rows, job.id = jobId ∧ job.state = state := by
  obtain ⟨job, hjob, hstate⟩ := stateOf_eq_some.mp h
  exact ⟨job, mem_of_find? hjob, key_of_find? hjob, hstate⟩

theorem Linked.owns (h : Linked s) (hlease : lease ∈ s.currentLeases) :
    ∃ agentId, s.Owns lease.id lease.jobId agentId := by
  obtain ⟨hmem, hcur⟩ := mem_currentLeases.mp hlease
  obtain ⟨agentId, howner⟩ := h.ownerOf (Table.find?_of_mem _ hmem)
  exact ⟨agentId, lease, Table.find?_of_mem _ hmem, hcur, rfl, howner⟩

theorem Owns.mem {leaseId : LeaseId} {agentId : AgentId} (h : s.Owns leaseId jobId agentId) :
    ∃ lease ∈ s.currentLeases, lease.id = leaseId ∧ lease.jobId = jobId := by
  obtain ⟨lease, hlease, hcur, hjob, -⟩ := h
  exact ⟨lease, mem_currentLeases.mpr ⟨mem_of_find? hlease, hcur⟩,
    key_of_find? hlease, hjob⟩

theorem lease_eq_of_id {lease' : LeaseRow} (h : lease ∈ s.currentLeases)
    (h' : lease' ∈ s.currentLeases) (hid : lease.id = lease'.id) : lease = lease' :=
  s.leases.eq_of_key_eq (mem_currentLeases.mp h).1 (mem_currentLeases.mp h').1 hid

theorem Reachable.consistent (h : Reachable rules s) : Consistent s := by
  have hlink := h.linked
  have hsound := h.sound
  have hqueue : ∀ id, s.readyQueue.contains id = true ↔ s.stateOf id = some .ready :=
    fun id => Set.ext_iff.mp hsound.queued_eq id
  refine ⟨fun job hjob => ?_, fun entry hentry => ?_, fun job hjob hheld => ?_,
    fun job hjob hfree lease hlease heq => ?_, fun agentId lease hlease lease' hlease' h₁ h₂ => ?_,
    fun row hrow => ?_⟩
  · rw [hqueue, stateOf_of_mem hjob, Option.some_inj]
  · have hready := (hqueue entry.jobId).mp ((contains_iff _ _).mpr ⟨entry, hentry, rfl⟩)
    obtain ⟨job, hjob, hid, -⟩ := mem_of_stateOf hready
    exact ⟨job, hjob, hid⟩
  · obtain ⟨leaseId, agentId, howns⟩ :=
      (hsound.held_iff job.id).mp ((held_iff_of_stateOf (stateOf_of_mem hjob)).mpr hheld)
    obtain ⟨lease, hlease, hid, hjobId⟩ := Owns.mem howns
    refine ⟨lease, ⟨hlease, hjobId⟩, ?_⟩
    rintro other ⟨hother, hotherJob⟩
    obtain ⟨agentId', howns'⟩ := hlink.owns hother
    rw [hotherJob] at howns'
    exact lease_eq_of_id hother hlease ((hsound.lease_eq howns' howns).trans hid.symm)
  · obtain ⟨agentId, howns⟩ := hlink.owns hlease
    rw [heq] at howns
    have hheld := (hsound.held_iff job.id).mpr ⟨_, _, howns⟩
    rw [(held_iff_of_stateOf (stateOf_of_mem hjob)).mp hheld] at hfree
    cases hfree
  · obtain ⟨hmem, hcur⟩ := mem_currentLeases.mp hlease
    obtain ⟨hmem', hcur'⟩ := mem_currentLeases.mp hlease'
    exact lease_eq_of_id hlease hlease'
      (hsound.worker_eq ⟨lease, Table.find?_of_mem _ hmem, hcur, rfl, h₁⟩
        ⟨lease', Table.find?_of_mem _ hmem', hcur', rfl, h₂⟩)
  · obtain ⟨state, hstate, hterm⟩ :=
      h.completed ((contains_iff _ _).mpr ⟨row, hrow, rfl⟩)
    obtain ⟨job, hjob, hid, rfl⟩ := mem_of_stateOf hstate
    exact ⟨job, hjob, hid, hterm⟩

/-- After any transactions the tables agree, and a Job that has ended keeps its
    state through all later ones. -/
theorem run_consistent (rules : CoreRules) (earlier later : List Transaction) :
    Consistent (run rules .initial earlier) ∧
      ∀ job ∈ (run rules .initial earlier).jobs.rows, job.state.isTerminal = true →
        (run rules .initial (earlier ++ later)).stateOf job.id = some job.state := by
  refine ⟨Reachable.consistent ⟨earlier, rfl⟩, fun job hjob hterm => ?_⟩
  rw [run, foldl_append]
  exact (run_writes rules _ later).stateOf_terminal (stateOf_of_mem hjob) hterm

end StoreState

end OctaCity.Store
