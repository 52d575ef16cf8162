/-
  OctaCity.Store.ClaimLimits

  Concurrent claims stay within the limits they read.  Four scopes have a load: a
  Pool, an Agent, a Project and one version of a Build Configuration.
-/
import OctaCity.Lib.LockedLimits
import OctaCity.Store.ClaimProtocol
import OctaCity.Store.LeaseMoves

namespace OctaCity.Store

open Domain Job Lib List

/-- What current Leases are counted by. -/
inductive ClaimScope
  | pool (id : PoolId)
  | agent (id : AgentId)
  | project (id : ProjectId)
  | configuration (id : BuildConfigurationId) (version : Nat)

/-- The lock that serializes the claims of a scope; the versions of a
    configuration share one. -/
def ClaimScope.guard : ClaimScope → ClaimLock
  | .pool id => .pool id
  | .agent id => .agent id
  | .project id => .project id
  | .configuration id _ => .configuration id

namespace StoreState

variable {rules : CoreRules} {timed : Bool} {s s' : StoreState} {lease lease' : LeaseRow}

/-! ## Loads -/

def inScope (s : StoreState) (scope : ClaimScope) (lease : LeaseRow) : Bool :=
  match scope with
  | .pool id => lease.poolId = id
  | .agent id => s.ownerOf lease = some id
  | .project id =>
    match s.locate lease.jobId with
    | some path => path.build.projectId = id
    | none => false
  | .configuration id version =>
    match s.locate lease.jobId with
    | some path => path.build.configuration.id = id ∧ path.build.configuration.version = version
    | none => false

/-- Current Leases of a scope. -/
def scopeLoad (s : StoreState) (scope : ClaimScope) : Nat := s.currentLeases.countP (s.inScope scope)

theorem ownsLease_eq_false {id : AgentId} : s.ownsLease id = false ↔ s.scopeLoad (.agent id) < 1 := by
  rw [Nat.lt_one_iff, scopeLoad, countP_eq_zero, ownsLease, any_eq_false]
  rfl

theorem scopeLoad_eq_length (scope : ClaimScope) :
    s.scopeLoad scope = ((s.currentLeases.filter (s.inScope scope)).map (·.id)).length ∧
      ((s.currentLeases.filter (s.inScope scope)).map (·.id)).Nodup := by
  refine ⟨by rw [scopeLoad, countP_eq_length_filter, length_map], ?_⟩
  exact s.leases.keys_nodup.sublist ((filter_sublist.trans filter_sublist).map _)

/-- A load grows by the Leases that were not in the scope before. -/
theorem scopeLoad_le (scope : ClaimScope) (new : List LeaseId)
    (h : ∀ lease' ∈ s'.currentLeases, s'.inScope scope lease' = true → lease'.id ∈ new ∨
      ∃ lease ∈ s.currentLeases, lease.id = lease'.id ∧ s.inScope scope lease = true) :
    s'.scopeLoad scope ≤ s.scopeLoad scope + new.length := by
  obtain ⟨hafter, hnodup⟩ := scopeLoad_eq_length (s := s') scope
  rw [hafter, (scopeLoad_eq_length scope).1, Nat.add_comm, ← length_append]
  refine (subperm_of_subset hnodup fun id hid => ?_).length_le
  obtain ⟨lease', hmem, rfl⟩ := mem_map.mp hid
  obtain ⟨hcur, hscope⟩ := mem_filter.mp hmem
  obtain hnew | ⟨lease, hlease, hsame, hin⟩ := h lease' hcur hscope
  · exact mem_append_left _ hnew
  · refine mem_append_right _ (mem_map.mpr ⟨lease, mem_filter.mpr ⟨hlease, hin⟩, hsame⟩)

/-- A Lease that keeps its Pool, its registration and its Job keeps its scopes. -/
theorem inScope_eq (hlink : Linked s) (hevol : Evolution s s') {leaseId : LeaseId}
    (hlease : s.leases.find? leaseId = some lease)
    (hsame : lease'.poolId = lease.poolId ∧ lease'.registrationId = lease.registrationId ∧
      lease'.jobId = lease.jobId) (scope : ClaimScope) :
    s'.inScope scope lease' = s.inScope scope lease := by
  obtain ⟨hpool, hreg, hjob⟩ := hsame
  obtain ⟨job, hfound⟩ := hlink.job _ _ hlease
  obtain ⟨path, hpath, -⟩ := hlink.locate hfound
  obtain ⟨path', hpath', hscope⟩ := hevol.locate hpath
  obtain ⟨hprojectId, hconf⟩ := Prod.mk.inj hscope
  cases scope with
  | pool id => rw [inScope, inScope, hpool]
  | agent id =>
    obtain ⟨registration, hregd⟩ := hlink.registration _ _ hlease
    obtain ⟨registration', hregd', hadvs⟩ :=
      hevol.registrations.grows _ _ hregd
    rw [inScope, inScope, ownerOf, ownerOf, hreg, hregd, hregd',
      Option.map_some, Option.map_some, hadvs.agentId]
  | project id =>
    rw [inScope, inScope, hjob, hpath, hpath']
    simp only [hprojectId]
  | configuration id version =>
    rw [inScope, inScope, hjob, hpath, hpath']
    simp only [hconf]

theorem LeaseMove.keeps (h : LeaseMove timed s' lease lease') :
    lease'.poolId = lease.poolId ∧ lease'.registrationId = lease.registrationId ∧
      lease'.jobId = lease.jobId := by
  cases h <;> exact ⟨rfl, rfl, rfl⟩

theorem LeaseMove.current (h : LeaseMove timed s' lease lease')
    (hcur : lease'.state.isCurrent = true) : lease.state.isCurrent = true := by
  cases h with
  | stay => exact hcur
  | renewed expiresAt htimed hbef => exact hbef
  | directed state hbef hstate => exact hbef
  | finished state hbef hstate huntim hended => exact hbef
  | requeued htimed hbef => exact hbef

/-- Only a claim adds to a load. -/
theorem WriteIn.scopeLoad_le (h : WriteIn rules timed false s s') (hlink : Linked s)
    (hevol : Evolution s s') (scope : ClaimScope) :
    s'.scopeLoad scope ≤ s.scopeLoad scope := by
  refine StoreState.scopeLoad_le scope [] fun lease' hlease' hscope => .inr ?_
  obtain ⟨hmem, hcur⟩ := mem_currentLeases.mp hlease'
  obtain ⟨lease, hlease, hmove⟩ | ⟨-, -, hgrant⟩ :=
    h.leaseMoves.origin _ _ (Table.find?_of_mem _ hmem)
  · refine ⟨lease, mem_currentLeases.mpr ⟨Table.mem_of_find? hlease, hmove.current hcur⟩,
      Table.key_of_find? hlease, ?_⟩
    rw [← inScope_eq hlink hevol hlease hmove.keeps]
    exact hscope
  · cases hgrant

/-- A new Lease adds one to each of its scopes and nothing to the others. -/
theorem takeJob_scopeLoad (hlink : Linked s) (hevol : Evolution s s')
    (htake : s.takeJob lease = .ok s') (scope : ClaimScope) :
    s'.scopeLoad scope ≤ s.scopeLoad scope + 1 ∧
      (s'.inScope scope lease = false → s'.scopeLoad scope ≤ s.scopeLoad scope) := by
  obtain ⟨-, -, -, hlses, -, -⟩ := takeJob_eq_ok htake
  have horigin : ∀ lease' ∈ s'.currentLeases, s'.inScope scope lease' = true → lease' = lease ∨
      ∃ before ∈ s.currentLeases, before.id = lease'.id ∧ s.inScope scope before = true := by
    intro lease' hlease' hscope
    obtain ⟨hmem, hcur⟩ := mem_currentLeases.mp hlease'
    have hfound := Table.find?_of_mem _ hmem
    rw [hlses] at hfound
    split at hfound
    · cases hfound
      exact .inl rfl
    · refine .inr ⟨lease', mem_currentLeases.mpr ⟨Table.mem_of_find? hfound, hcur⟩, rfl, ?_⟩
      rw [← inScope_eq hlink hevol hfound ⟨rfl, rfl, rfl⟩]
      exact hscope
  constructor
  · refine scopeLoad_le scope [lease.id] fun lease' hlease' hscope => ?_
    obtain rfl | hbef := horigin lease' hlease' hscope
    · exact .inl (mem_singleton_self _)
    · exact .inr hbef
  · intro hout
    refine scopeLoad_le scope [] fun lease' hlease' hscope => .inr ?_
    obtain rfl | hbef := horigin lease' hlease' hscope
    · rw [hout] at hscope
      cases hscope
    · exact hbef

end StoreState

open StoreState
/-! ## What a claim relies on -/

namespace ClaimPhase

/-- The placement a claim read. -/
def placement? : ClaimPhase → Option ClaimPlacement
  | .begun | .entered => none
  | .placed placement | .scanning placement _ | .rowLocked placement _ _
  | .projectLocked placement _ _ | .scopesLocked placement _ _ | .selected placement _
  | .inserted placement _ => some placement

/-- The candidates a claim still looks at. -/
def candidates : ClaimPhase → List Candidate
  | .begun | .entered | .placed _ => []
  | .scanning _ page => page
  | .rowLocked _ candidate rest | .projectLocked _ candidate rest
  | .scopesLocked _ candidate rest => candidate :: rest
  | .selected _ candidate | .inserted _ candidate => [candidate]

/-- The candidate whose queue row is locked. -/
def locked? : ClaimPhase → Option Candidate
  | .begun | .entered | .placed _ | .scanning _ _ => none
  | .rowLocked _ candidate _ | .projectLocked _ candidate _ | .scopesLocked _ candidate _
  | .selected _ candidate | .inserted _ candidate => some candidate

/-- The candidate that was counted again under the locks of its scopes. -/
def selected? : ClaimPhase → Option Candidate
  | .selected _ candidate | .inserted _ candidate => some candidate
  | _ => none

/-- The locks of the scopes a phase has acquired. -/
def acquired : ClaimPhase → List ClaimLock
  | .projectLocked _ candidate _ => [.project candidate.entry.projectId]
  | .scopesLocked _ candidate _ | .selected _ candidate | .inserted _ candidate =>
    [.project candidate.entry.projectId, .configuration candidate.entry.configuration.id]
  | _ => []

end ClaimPhase

variable {store : StoreState}

namespace ClaimProcess

/-- The scopes a claim found below a limit. -/
inductive Checked (process : ClaimProcess) : ClaimScope → Nat → Prop
  | pool {placement : ClaimPlacement} (h : process.phase.placement? = some placement) :
      Checked process (.pool process.request.poolId) placement.pool.concurrencyLimit
  | agent {placement : ClaimPlacement} (h : process.phase.placement? = some placement) :
      Checked process (.agent process.request.agentId) 1
  | project {candidate : Candidate} (h : process.phase.selected? = some candidate) :
      Checked process (.project candidate.entry.projectId)
        candidate.path.build.projectJobConcurrencyLimit
  | configuration {candidate : Candidate} (h : process.phase.selected? = some candidate) :
      Checked process
        (.configuration candidate.entry.configuration.id candidate.entry.configuration.version)
        candidate.entry.configuration.jobConcurrencyLimit

/-- What a claim holds and read is right in the committed store. -/
structure Fits (process : ClaimProcess) (store : StoreState) : Prop where
  entered : process.phase ≠ .begun → .pool process.request.poolId ∈ process.locks
  registered : ∀ placement, process.phase.placement? = some placement →
    ∃ registration, store.registrations.find? placement.registration.id = some registration ∧
      registration.agentId = process.request.agentId
  located : ∀ candidate ∈ process.phase.candidates, store.EntryScoped candidate.entry
  queued : ∀ candidate, process.phase.locked? = some candidate →
    .queueEntry candidate.entry.jobId ∈ process.locks
  acquired : ∀ lock ∈ process.phase.acquired, lock ∈ process.locks

/-- A queue row stays while a claim has it locked. -/
def KeepsRows (process : ClaimProcess) (store : StoreState) : Prop :=
  ∀ jobId, .queueEntry jobId ∈ process.locks → store.readyQueue.contains jobId = true

theorem Fits.evolution {process : ClaimProcess} {store' : StoreState}
    (h : process.Fits store) (hevol : store.Evolution store') : process.Fits store' where
  entered := h.entered
  registered := by
    intro placement hplacement
    obtain ⟨registration, hreg, hagent⟩ := h.registered placement hplacement
    obtain ⟨registration', hreg', hadvs⟩ :=
      hevol.registrations.grows _ _ hreg
    exact ⟨registration', hreg', hadvs.agentId.trans hagent⟩
  located := fun candidate hcand => (h.located candidate hcand).evolution hevol
  queued := h.queued
  acquired := h.acquired

end ClaimProcess

/-! ## The invariant of the system -/

namespace ClaimSystem

variable {rules : CoreRules} {σ σ' : ClaimSystem} {process process' : ClaimProcess}

/-- The loads of the committed store and what the claims hold and checked. -/
def admission (σ : ClaimSystem) : Admission Nat ClaimLock ClaimScope where
  load := σ.store.scopeLoad
  held id lock := ∃ process ∈ σ.claims.rows, process.id = id ∧ lock ∈ process.locks
  checked id scope limit :=
    ∃ process ∈ σ.claims.rows, process.id = id ∧ process.Checked scope limit

structure Sound (rules : CoreRules) (σ : ClaimSystem) : Prop where
  writes : Writes rules .initial σ.store
  admission : σ.admission.Sound ClaimScope.guard
  fits : ∀ process ∈ σ.claims.rows, process.Fits σ.store
  rows : ∀ process ∈ σ.claims.rows, process.KeepsRows σ.store

theorem mem_update {other : ClaimProcess} : other ∈ (σ.update process).claims.rows ↔
    other = process ∨ other ∈ σ.claims.rows ∧ other.id ≠ process.id :=
  Table.mem_put

theorem mem_finish {other : ClaimProcess} : other ∈ (σ.finish process).claims.rows ↔
    other ∈ σ.claims.rows ∧ other.id ≠ process.id :=
  Table.mem_erase

section

variable (h : Sound rules σ) (hproc : process ∈ σ.claims.rows)

include h hproc

/-- What a claim holds alone. -/
theorem Sound.held_eq (hother : process' ∈ σ.claims.rows) {lock : ClaimLock}
    (hlock : lock ∈ process.locks) (hotherLock : lock ∈ process'.locks) : process = process' :=
  σ.claims.eq_of_key_eq hproc hother (h.admission.exclusive
    (show σ.admission.held process.id lock from ⟨process, hproc, rfl, hlock⟩)
    ⟨process', hother, rfl, hotherLock⟩)

theorem Sound.checked {scope : ClaimScope} {limit : Nat} (hchk : process.Checked scope limit) :
    scope.guard ∈ process.locks ∧ σ.store.scopeLoad scope < limit := by
  have hown : σ.admission.checked process.id scope limit := ⟨process, hproc, rfl, hchk⟩
  obtain ⟨holder, hhold, hid, hlock⟩ := h.admission.covered hown
  obtain rfl := σ.claims.eq_of_key_eq hhold hproc hid
  exact ⟨hlock, h.admission.below hown⟩

/-- One claim executes a statement that commits nothing. -/
theorem Sound.update (hid : process'.id = process.id)
    (hlocks : ∀ lock ∈ process'.locks, lock ∈ process.locks ∨ σ.isFree process lock = true)
    (hkeeps : ∀ lock ∈ process.locks, lock ∈ process'.locks)
    (hchk : ∀ scope limit, process'.Checked scope limit → process.Checked scope limit ∨
      scope.guard ∈ process'.locks ∧ σ.store.scopeLoad scope < limit)
    (hfits : process'.Fits σ.store)
    (hrows : ∀ jobId, .queueEntry jobId ∈ process'.locks → .queueEntry jobId ∈ process.locks ∨
      σ.store.readyQueue.contains jobId = true) : Sound rules (σ.update process') where
  writes := h.writes
  fits other hother := by
    obtain rfl | ⟨hmem, -⟩ := mem_update.mp hother
    · exact hfits
    · exact h.fits other hmem
  rows other hother := by
    obtain rfl | ⟨hmem, -⟩ := mem_update.mp hother
    · intro jobId hlock
      obtain hold | hqueued := hrows jobId hlock
      · exact h.rows process hproc jobId hold
      · exact hqueued
    · exact h.rows other hmem
  admission := by
    have hself : process' ∈ (σ.update process').claims.rows := mem_update.mpr (.inl rfl)
    refine h.admission.moves process.id ⟨?_, ?_, ?_, fun _ _ => Nat.le_refl _⟩
    · intro id hne
      constructor
      · intro lock
        constructor
        · rintro ⟨other, hother, rfl, hlock⟩
          obtain rfl | ⟨hmem, -⟩ := mem_update.mp hother
          · exact absurd hid hne
          · exact ⟨other, hmem, rfl, hlock⟩
        · rintro ⟨other, hother, rfl, hlock⟩
          exact ⟨other, mem_update.mpr (.inr ⟨hother, by rwa [hid]⟩), rfl, hlock⟩
      · rintro scope limit ⟨other, hother, rfl, hbelow⟩
        obtain rfl | ⟨hmem, -⟩ := mem_update.mp hother
        · exact absurd hid hne
        · exact ⟨other, hmem, rfl, hbelow⟩
    · rintro lock ⟨other, hother, hotherId, hlock⟩
      obtain rfl | ⟨-, hne⟩ := mem_update.mp hother
      · obtain hold | hfree := hlocks lock hlock
        · exact .inl ⟨process, hproc, rfl, hold⟩
        · -- a free lock is held by the claim itself or by nobody
          by_cases hown : lock ∈ process.locks
          · exact .inl ⟨process, hproc, rfl, hown⟩
          · refine .inr fun id hheld => ?_
            obtain ⟨holder, hhold, -, hholds⟩ := hheld
            obtain hsame | hnot := of_decide_eq_true (all_eq_true.mp hfree holder hhold)
            · rw [σ.claims.eq_of_key_eq hhold hproc hsame] at hholds
              exact hown hholds
            · exact hnot hholds
      · exact absurd (hotherId.trans hid.symm) hne
    · rintro scope limit ⟨other, hother, hotherId, hbelow⟩
      obtain rfl | ⟨-, hne⟩ := mem_update.mp hother
      · obtain hold | hnew := hchk scope limit hbelow
        · obtain ⟨hlock, hload⟩ := h.checked hproc hold
          exact ⟨⟨other, hself, hid, hkeeps _ hlock⟩, hload⟩
        · exact ⟨⟨other, hself, hid, hnew.1⟩, hnew.2⟩
      · exact absurd (hotherId.trans hid.symm) hne

end

/-- A claim ends, and the store evolves without adding to what others guard. -/
theorem Sound.finish (h : Sound rules σ) (hwrites : Writes rules .initial store)
    (hfits : ∀ other ∈ σ.claims.rows, other.Fits store)
    (hload : ∀ other ∈ σ.claims.rows, other.id ≠ process.id → ∀ scope : ClaimScope,
      scope.guard ∈ other.locks → store.scopeLoad scope ≤ σ.store.scopeLoad scope)
    (hrows : ∀ other ∈ σ.claims.rows, other.id ≠ process.id → other.KeepsRows store) :
    Sound rules { σ.finish process with store } where
  writes := hwrites
  fits other hother := hfits other (mem_finish.mp hother).1
  rows other hother := hrows other (mem_finish.mp hother).1 (mem_finish.mp hother).2
  admission := by
    refine h.admission.moves process.id ⟨?_, ?_, ?_, ?_⟩
    · intro id hne
      constructor
      · intro lock
        constructor
        · rintro ⟨other, hother, rfl, hlock⟩
          exact ⟨other, (mem_finish.mp hother).1, rfl, hlock⟩
        · rintro ⟨other, hother, rfl, hlock⟩
          exact ⟨other, mem_finish.mpr ⟨hother, hne⟩, rfl, hlock⟩
      · rintro scope limit ⟨other, hother, rfl, hbelow⟩
        exact ⟨other, (mem_finish.mp hother).1, rfl, hbelow⟩
    · rintro lock ⟨other, hother, hid, -⟩
      exact absurd hid (mem_finish.mp hother).2
    · rintro scope limit ⟨other, hother, hid, -⟩
      exact absurd hid (mem_finish.mp hother).2
    · rintro id scope hne ⟨other, hother, rfl, hlock⟩
      exact hload other hother hne scope hlock

/-! ## Statements -/

section

variable (h : Sound rules σ)

include h

theorem Sound.linked : σ.store.Linked :=
  (h.writes.moves linked_initial).1

theorem Sound.dispatch : σ.store.dispatch.Sound :=
  dispatch_initial.moves (h.writes.moves linked_initial).2

theorem Sound.begin {id : Nat} (hid : σ.claims.contains id = false) (request : JobClaim)
    (epoch : Bigint) : Sound rules (σ.update ⟨id, request, epoch, [], .begun⟩) where
  writes := h.writes
  fits other hother := by
    obtain rfl | ⟨hmem, -⟩ := mem_update.mp hother
    · exact ⟨fun hne => absurd rfl hne, (fun _ h => nomatch h), (fun _ h => nomatch h),
        (fun _ h => nomatch h), (fun _ h => nomatch h)⟩
    · exact h.fits other hmem
  rows other hother := by
    obtain rfl | ⟨hmem, -⟩ := mem_update.mp hother
    · exact fun _ hlock => nomatch hlock
    · exact h.rows other hmem
  admission := by
    have hnew : ∀ other ∈ σ.claims.rows, other.id ≠ id := by
      intro other hother hsame
      rw [(Table.contains_iff _ _).mpr ⟨other, hother, hsame⟩] at hid
      cases hid
    refine h.admission.moves id ⟨?_, ?_, ?_, fun _ _ => Nat.le_refl _⟩
    · intro other hne
      constructor
      · intro lock
        constructor
        · rintro ⟨holder, hhold, rfl, hlock⟩
          obtain rfl | ⟨hmem, -⟩ := mem_update.mp hhold
          · exact absurd rfl hne
          · exact ⟨holder, hmem, rfl, hlock⟩
        · rintro ⟨holder, hhold, rfl, hlock⟩
          exact ⟨holder, mem_update.mpr (.inr ⟨hhold, hnew holder hhold⟩), rfl, hlock⟩
      · rintro scope limit ⟨holder, hhold, rfl, hbelow⟩
        obtain rfl | ⟨hmem, -⟩ := mem_update.mp hhold
        · exact absurd rfl hne
        · exact ⟨holder, hmem, rfl, hbelow⟩
    · rintro lock ⟨holder, hhold, hholderId, hlock⟩
      obtain rfl | ⟨hmem, -⟩ := mem_update.mp hhold
      · cases hlock
      · exact absurd hholderId (hnew holder hmem)
    · rintro scope limit ⟨holder, hhold, hholderId, hbelow⟩
      obtain rfl | ⟨hmem, -⟩ := mem_update.mp hhold
      · cases hbelow <;> rename_i hphase <;> cases hphase
      · exact absurd hholderId (hnew holder hmem)

/-- A claim rolls back. -/
theorem Sound.rollback (process : ClaimProcess) : Sound rules (σ.finish process) :=
  h.finish h.writes h.fits (fun _ _ _ _ _ => Nat.le_refl _) fun other hother _ => h.rows other hother

theorem Sound.enter (hproc : process ∈ σ.claims.rows)
    (hfree : σ.isFree process (.pool process.request.poolId) = true) :
    Sound rules (σ.update { process with
      locks := .pool process.request.poolId :: process.locks
      phase := .entered }) := by
  refine h.update hproc rfl (fun lock hlock => ?_) (fun lock => mem_cons_of_mem _)
    (fun scope limit hchk => ?_) ?_ fun jobId hlock => ?_
  · obtain rfl | hold := mem_cons.mp hlock
    · exact .inr hfree
    · exact .inl hold
  · cases hchk <;> rename_i hphase <;> cases hphase
  · exact ⟨fun _ => mem_cons_self, (fun _ h => nomatch h), (fun _ h => nomatch h),
      (fun _ h => nomatch h), (fun _ h => nomatch h)⟩
  · obtain hpool | hold := mem_cons.mp hlock
    · cases hpool
    · exact .inl hold

theorem Sound.place (hproc : process ∈ σ.claims.rows) (hphase : process.phase = .entered)
    (hplace : σ.place rules process = some σ') : Sound rules σ' := by
  unfold ClaimSystem.place at hplace
  cases hread : σ.store.placement process.request process.epoch with
  | none =>
    rw [hread] at hplace
    cases hplace
    exact h.rollback process
  | some placed =>
    obtain ⟨registration, pool⟩ := placed
    rw [hread] at hplace
    simp only at hplace
    split at hplace
    · cases hplace
    · rename_i hfree
      split at hplace
      · cases hplace
        exact h.rollback process
      · cases hplace
        obtain ⟨hmem, hagent, howns, -, -⟩ := placement_eq_some hread
        have hpool := placement_poolLoad hread
        refine h.update hproc rfl (fun lock hlock => ?_) (fun lock => mem_cons_of_mem _)
          (fun scope limit hchk => .inr ?_) ?_ fun jobId hlock => ?_
        · obtain rfl | hold := mem_cons.mp hlock
          · exact .inr (by simpa using hfree)
          · exact .inl hold
        · have hentered := (h.fits process hproc).entered (by rw [hphase]; exact nofun)
          cases hchk with
          | pool hplacement =>
            cases hplacement
            exact ⟨mem_cons_of_mem _ hentered, hpool⟩
          | agent hplacement => exact ⟨mem_cons_self, ownsLease_eq_false.mp howns⟩
          | project hsel => cases hsel
          | configuration hsel => cases hsel
        · refine ⟨fun _ => mem_cons_of_mem _
            ((h.fits process hproc).entered (by rw [hphase]; exact nofun)), ?_,
            (fun _ h => nomatch h), (fun _ h => nomatch h), (fun _ h => nomatch h)⟩
          rintro placement hplacement
          cases hplacement
          exact ⟨registration, Table.find?_of_mem _ hmem, hagent⟩
        · obtain hagentLock | hold := mem_cons.mp hlock
          · cases hagentLock
          · exact .inl hold

end

variable {placement : ClaimPlacement} {candidate : Candidate} {rest : List Candidate}

/-- A claim that has its placement goes on to another phase under it, with the
    same locks or one more. -/
theorem Sound.goOn (h : Sound rules σ) (hproc : process ∈ σ.claims.rows)
    (hplacement : process.phase.placement? = some placement)
    {locks : List ClaimLock} {phase : ClaimPhase}
    (hnext : phase.placement? = some placement)
    (hlocks : ∀ lock ∈ locks, lock ∈ process.locks ∨ σ.isFree process lock = true)
    (hkeeps : ∀ lock ∈ process.locks, lock ∈ locks)
    (hcands : ∀ candidate ∈ phase.candidates, σ.store.EntryScoped candidate.entry)
    (hlocked : ∀ candidate, phase.locked? = some candidate →
      .queueEntry candidate.entry.jobId ∈ locks)
    (hacq : ∀ lock ∈ phase.acquired, lock ∈ locks)
    (hsel : ∀ candidate, phase.selected? = some candidate →
      process.phase.selected? = some candidate ∨
        σ.store.withinConcurrencyLimits candidate = true)
    (hrows : ∀ jobId, .queueEntry jobId ∈ locks → .queueEntry jobId ∈ process.locks ∨
      σ.store.readyQueue.contains jobId = true) :
    Sound rules (σ.update { process with locks, phase }) := by
  have hfits := h.fits process hproc
  have hbegun : process.phase ≠ .begun := by
    intro hphase
    rw [hphase] at hplacement
    cases hplacement
  refine h.update hproc rfl hlocks hkeeps (fun scope limit hchk => ?_) ?_ hrows
  · -- the scopes of a selected candidate are guarded by what the phase acquired
    have hguards : ∀ candidate, phase.selected? = some candidate →
        .project candidate.entry.projectId ∈ locks ∧
          .configuration candidate.entry.configuration.id ∈ locks := by
      intro candidate hcand
      cases phase with
      | selected _ chosen =>
        cases hcand
        exact ⟨hacq _ mem_cons_self, hacq _ (mem_cons_of_mem _
          mem_cons_self)⟩
      | inserted _ chosen =>
        cases hcand
        exact ⟨hacq _ mem_cons_self, hacq _ (mem_cons_of_mem _
          mem_cons_self)⟩
      | begun | entered | placed | scanning | rowLocked | projectLocked | scopesLocked =>
        cases hcand
    cases hchk with
    | pool hread =>
      replace hread : phase.placement? = some _ := hread
      rw [hnext] at hread
      cases hread
      exact .inl (.pool hplacement)
    | agent hread => exact .inl (.agent hplacement)
    | @project candidate hchosen =>
      obtain hbef | hwith := hsel candidate hchosen
      · exact .inl (.project hbef)
      · exact .inr ⟨(hguards candidate hchosen).1, (of_decide_eq_true hwith).1⟩
    | @configuration candidate hchosen =>
      obtain hbef | hwith := hsel candidate hchosen
      · exact .inl (.configuration hbef)
      · exact .inr ⟨(hguards candidate hchosen).2, (of_decide_eq_true hwith).2⟩
  · refine ⟨fun _ => hkeeps _ (hfits.entered hbegun), ?_, hcands, hlocked, hacq⟩
    intro read hread
    replace hread : phase.placement? = some read := hread
    rw [hnext] at hread
    cases hread
    exact hfits.registered placement hplacement

/-- The page holds entries of the queue. -/
theorem mem_candidates {s : StoreState} {poolId : PoolId} {policy : FairnessPolicy}
    (h : candidate ∈ s.candidates poolId policy) : candidate.entry ∈ s.readyQueue.rows := by
  rw [candidates, mem_mergeSort, mem_filter, mem_filterMap] at h
  obtain ⟨⟨entry, hentry, hcand⟩, -⟩ := h
  unfold StoreState.candidate at hcand
  simp only [Option.bind_eq_bind, Option.bind_eq_some_iff] at hcand
  obtain ⟨path, -, spec, -, hcand⟩ := hcand
  split at hcand
  · cases hcand
    exact (mem_filter.mp hentry).1
  · cases hcand

section

variable (h : Sound rules σ) (hproc : process ∈ σ.claims.rows)

include h hproc

/-- A claim goes on to look at a page. -/
theorem Sound.scan (hplacement : process.phase.placement? = some placement)
    {page : List Candidate} (hpage : ∀ candidate ∈ page, σ.store.EntryScoped candidate.entry) :
    Sound rules (σ.update { process with phase := .scanning placement page }) := by
  refine h.goOn hproc hplacement rfl (fun lock => .inl) (fun lock => id) hpage
    (fun candidate hlocked => ?_) (fun lock hlock => ?_) (fun candidate hsel => ?_)
    fun jobId => .inl
  · cases hlocked
  · cases hlock
  · cases hsel

theorem Sound.readPage (hplacement : process.phase.placement? = some placement) (start : Nat) :
    Sound rules (σ.readPage process placement start) := by
  refine h.scan hproc hplacement fun candidate hcand => ?_
  have hpage := mem_of_mem_drop (mem_of_mem_take hcand)
  exact h.writes.queueScoped _ (mem_candidates hpage)

theorem Sound.tryRow (hphase : process.phase = .scanning placement (candidate :: rest)) :
    Sound rules (σ.tryRow rules process placement candidate rest) := by
  have hplacement : process.phase.placement? = some placement := by rw [hphase]; rfl
  have hloc := (h.fits process hproc).located
  rw [hphase] at hloc
  unfold ClaimSystem.tryRow
  simp only
  split
  · rename_i hok
    obtain ⟨-, -, hqueued, hfree⟩ := hok
    refine h.goOn hproc hplacement rfl (fun lock hlock => ?_)
      (fun lock => mem_cons_of_mem _) hloc (fun locked hlocked => ?_)
      (fun lock hlock => ?_) (fun chosen hchosen => ?_) fun jobId hlock => ?_
    · obtain rfl | hold := mem_cons.mp hlock
      · exact .inr hfree
      · exact .inl hold
    · cases hlocked
      exact mem_cons_self
    · cases hlock
    · cases hchosen
    · obtain hrow | hold := mem_cons.mp hlock
      · cases hrow
        exact .inr hqueued
      · exact .inl hold
  · exact h.scan hproc hplacement fun other hother =>
      hloc other (mem_cons_of_mem _ hother)

/-- A claim tries the lock of a scope of the candidate whose row it holds. -/
theorem Sound.tryScope {lock : ClaimLock} {phase : ClaimPhase}
    (hplacement : process.phase.placement? = some placement)
    (hlocked : process.phase.locked? = some candidate)
    (hcands : process.phase.candidates = candidate :: rest)
    (hnext : phase.placement? = some placement)
    (hnextCandidates : phase.candidates = candidate :: rest)
    (hnextLocked : phase.locked? = some candidate) (hunselected : phase.selected? = none)
    (hacq : ∀ other ∈ phase.acquired, other = lock ∨ other ∈ process.phase.acquired)
    (hrow : ∀ jobId, lock ≠ .queueEntry jobId) :
    Sound rules (σ.tryScope process lock phase (.scanning placement rest)) := by
  have hfits := h.fits process hproc
  have hloc := hfits.located
  rw [hcands] at hloc
  unfold ClaimSystem.tryScope
  split
  · rename_i hfree
    refine h.goOn hproc hplacement hnext (fun other hother => ?_)
      (fun other => mem_cons_of_mem _) (hnextCandidates ▸ hloc) ?_ (fun other hother => ?_)
      (fun chosen hchosen => ?_) fun jobId hother => ?_
    · obtain rfl | hold := mem_cons.mp hother
      · exact .inr hfree
      · exact .inl hold
    · intro chosen hchosen
      rw [hnextLocked] at hchosen
      cases hchosen
      exact mem_cons_of_mem _ (hfits.queued _ hlocked)
    · obtain rfl | hold := hacq other hother
      · exact mem_cons_self
      · exact mem_cons_of_mem _ (hfits.acquired _ hold)
    · rw [hunselected] at hchosen
      cases hchosen
    · obtain hlock | hold := mem_cons.mp hother
      · exact absurd hlock.symm (hrow jobId)
      · exact .inl hold
  · exact h.scan hproc hplacement fun other hother =>
      hloc other (mem_cons_of_mem _ hother)

theorem Sound.recount (hphase : process.phase = .scopesLocked placement candidate rest) :
    Sound rules (σ.recount process placement candidate rest) := by
  have hfits := h.fits process hproc
  have hplacement : process.phase.placement? = some placement := by rw [hphase]; rfl
  have hloc := hfits.located
  have hqueued := hfits.queued
  have hacq := hfits.acquired
  rw [hphase] at hloc hqueued hacq
  unfold ClaimSystem.recount
  split
  · exact h.rollback process
  · split
    · rename_i hwith
      refine h.goOn hproc hplacement rfl (fun lock => .inl) (fun lock => id)
        (fun other hother => ?_) hqueued hacq (fun chosen hchosen => ?_) fun jobId => .inl
      · obtain rfl := mem_singleton.mp hother
        exact hloc _ mem_cons_self
      · cases hchosen
        exact .inr hwith
    · exact h.scan hproc hplacement fun other hother =>
        hloc other (mem_cons_of_mem _ hother)

/-- A selected candidate is inserted without another read. -/
theorem Sound.insert (hphase : process.phase = .selected placement candidate) :
    Sound rules (σ.update { process with phase := .inserted placement candidate }) := by
  have hfits := h.fits process hproc
  have hloc := hfits.located
  have hqueued := hfits.queued
  have hacq := hfits.acquired
  rw [hphase] at hloc hqueued hacq
  refine h.goOn hproc (by rw [hphase]; rfl) rfl (fun lock => .inl) (fun lock => id) hloc
    hqueued hacq (fun chosen hchosen => .inl ?_) fun jobId => .inl
  rw [hphase]
  exact hchosen

end

/-! ## Commits -/

/-- What one write keeps, carried over all writes of a transaction. -/
theorem drain_keeps {s s' : StoreState} {claims : List ClaimProcess}
    (hwrites : WritesIn rules true false s s') (hlink : s.Linked)
    (hfits : ∀ process ∈ claims, process.Fits s) :
    s'.Linked ∧ (∀ process ∈ claims, process.Fits s') ∧
      ∀ scope, s'.scopeLoad scope ≤ s.scopeLoad scope := by
  induction hwrites with
  | refl => exact ⟨hlink, hfits, fun scope => Nat.le_refl _⟩
  | tail _ hwrite ih =>
    obtain ⟨hlink, hfits, hload⟩ := ih
    have hevol := hwrite.evolution
    exact ⟨hlink.evolution hevol,
      fun process hproc => (hfits process hproc).evolution hevol,
      fun scope => Nat.le_trans (hwrite.scopeLoad_le hlink hevol scope) (hload scope)⟩

/-- Another transaction adds to no load and leaves the locked rows in the queue. -/
theorem Sound.other (h : Sound rules σ) {transaction : Transaction}
    (hother : transaction.isClaim = false)
    (hrows : σ.respectsRows (σ.store.step rules transaction) = true) :
    Sound rules { σ with store := σ.store.step rules transaction } := by
  have hwrites : WritesIn rules true false σ.store (σ.store.step rules transaction) := by
    unfold step
    cases hexec : σ.store.execute rules transaction with
    | ok s' =>
      refine execute_writes (fun _ => rfl) (fun hclaim => ?_) hexec
      rw [hother] at hclaim
      cases hclaim
    | error _ => exact .refl
  obtain ⟨-, hfits, hload⟩ := drain_keeps hwrites h.linked h.fits
  refine ⟨h.writes.trans (step_writes rules σ.store transaction), ?_, hfits, ?_⟩
  · exact h.admission.drains ⟨id, fun hchk => ⟨hchk, fun _ => id⟩, hload⟩
  · intro process hproc jobId hlock
    have hrow := all_eq_true.mp (all_eq_true.mp hrows process hproc) _ hlock
    exact of_decide_eq_true hrow (h.rows process hproc jobId hlock)

section

variable (h : Sound rules σ) (hproc : process ∈ σ.claims.rows)
  (hphase : process.phase = .inserted placement candidate)

include h hproc hphase

/-- The Lease of a claim counts only in scopes the claim has locked. -/
theorem Sound.inScope_leaseOf (hevol : σ.store.Evolution store) {scope : ClaimScope}
    (hscope : store.inScope scope (leaseOf process placement candidate) = true) :
    scope.guard ∈ process.locks := by
  have hfits := (h.fits process hproc).evolution hevol
  have hplacement : process.phase.placement? = some placement := by rw [hphase]; rfl
  have hsel : process.phase.selected? = some candidate := by rw [hphase]; rfl
  obtain ⟨registration, hreg, hagent⟩ := hfits.registered placement hplacement
  obtain ⟨path, hpath, hsame⟩ := hfits.located candidate (by rw [hphase]; exact mem_cons_self)
  obtain ⟨hprojectId, hconf⟩ := Prod.mk.inj hsame
  have hlocate : store.locate (leaseOf process placement candidate).jobId = some path := hpath
  cases scope with
  | pool id =>
    obtain rfl := of_decide_eq_true hscope
    exact hfits.entered (by rw [hphase]; exact nofun)
  | agent id =>
    have howner : store.ownerOf (leaseOf process placement candidate) =
        some process.request.agentId := by
      rw [ownerOf, show (leaseOf process placement candidate).registrationId =
        placement.registration.id from rfl, hreg, Option.map_some, hagent]
    rw [inScope, howner, decide_eq_true_eq, Option.some_inj] at hscope
    subst hscope
    exact (h.checked hproc (.agent hplacement)).1
  | project id =>
    rw [inScope, hlocate] at hscope
    obtain rfl := of_decide_eq_true hscope
    rw [← hprojectId]
    exact (h.checked hproc (.project hsel)).1
  | configuration id version =>
    rw [inScope, hlocate] at hscope
    obtain ⟨rfl, -⟩ := of_decide_eq_true hscope
    rw [← hconf]
    exact (h.checked hproc (.configuration hsel)).1

/-- What a claim inserts is a write of the store: its Job is still queued, and
    its Agent still has no Lease. -/
theorem Sound.take (htake : σ.store.takeJob (leaseOf process placement candidate) = .ok store) :
    Write rules σ.store store := by
  have hfits := h.fits process hproc
  have hplacement : process.phase.placement? = some placement := by rw [hphase]; rfl
  obtain ⟨registration, hreg, hagent⟩ := hfits.registered placement hplacement
  have hqueued := h.rows process hproc candidate.entry.jobId
    (hfits.queued candidate (by rw [hphase]; rfl))
  have hready : σ.store.stateOf candidate.entry.jobId = some .ready :=
    (Set.ext_iff.mp h.dispatch.queued_eq _).mp hqueued
  obtain ⟨job, hjob, hstate⟩ := stateOf_eq_some.mp hready
  refine .take rfl hjob hstate hreg ?_ rfl htake
  rw [hagent]
  exact ownsLease_eq_false.mpr (h.checked hproc (.agent hplacement)).2

theorem Sound.commit : Sound rules (σ.commit process placement candidate) := by
  unfold ClaimSystem.commit
  cases htake : σ.store.takeJob (leaseOf process placement candidate) with
  | error _ => exact h.rollback process
  | ok store =>
    have hwrite := h.take hproc hphase htake
    have hevol := hwrite.evolution
    have hfits := h.fits process hproc
    have hrecd : Write rules store { store with
        idempotency.claimReadyJob :=
          commitMutation store.idempotency.claimReadyJob process.request.leaseId
            process.request.fingerprint
            { jobId := candidate.entry.jobId
              attempt := candidate.path.attempt.attemptNumber
              signedJobSpec := candidate.signedJobSpec
              claimedAt := process.request.claimedAt
              expiresAt := process.request.expiresAt } } :=
      .record { Idempotency.Grows.refl _ with claimReadyJob := prefix_append _ _ } nofun
        fun _ h => .inl h
    refine h.finish ((h.writes.tail hwrite).tail hrecd) ?_ ?_ ?_
    · exact fun other hother =>
        ((h.fits other hother).evolution hevol).evolution hrecd.evolution
    · intro other hother hne scope hguard
      refine (takeJob_scopeLoad h.linked hevol htake scope).2 ?_
      rw [Bool.eq_false_iff]
      intro hscope
      have hown := h.inScope_leaseOf hproc hphase hevol hscope
      exact hne (congrArg (·.id) (h.held_eq hother hproc hguard hown))
    · intro other hother hne jobId hlock
      obtain ⟨-, -, hqueue, -, -, -⟩ := takeJob_eq_ok htake
      refine (hqueue jobId).mpr ⟨h.rows other hother jobId hlock, ?_⟩
      rintro rfl
      have hown := hfits.queued candidate (by rw [hphase]; rfl)
      exact hne (congrArg (·.id) (h.held_eq hother hproc hlock hown))

end

/-! ## Runs -/

theorem Sound.advance (h : Sound rules σ) (hproc : process ∈ σ.claims.rows) {start : Nat}
    (hadv : σ.advance rules process start = some σ') : Sound rules σ' := by
  unfold ClaimSystem.advance at hadv
  cases hphase : process.phase with
  | begun =>
    rw [hphase] at hadv
    simp only at hadv
    split at hadv
    · rename_i hfree
      cases hadv
      exact h.enter hproc hfree
    · cases hadv
  | entered =>
    rw [hphase] at hadv
    exact h.place hproc hphase hadv
  | placed placement =>
    rw [hphase] at hadv
    cases hadv
    exact h.readPage hproc (by rw [hphase]; rfl) start
  | scanning placement page =>
    rw [hphase] at hadv
    cases page with
    | nil =>
      cases hadv
      exact h.readPage hproc (by rw [hphase]; rfl) start
    | cons candidate rest =>
      cases hadv
      exact h.tryRow hproc hphase
  | rowLocked placement candidate rest =>
    rw [hphase] at hadv
    cases hadv
    refine h.tryScope hproc (by rw [hphase]; rfl) (by rw [hphase]; rfl) (by rw [hphase]; rfl)
      rfl rfl rfl rfl (fun other hother => ?_) nofun
    exact .inl (mem_singleton.mp hother)
  | projectLocked placement candidate rest =>
    rw [hphase] at hadv
    cases hadv
    refine h.tryScope hproc (by rw [hphase]; rfl) (by rw [hphase]; rfl) (by rw [hphase]; rfl)
      rfl rfl rfl rfl (fun other hother => ?_) nofun
    rw [hphase]
    exact (mem_pair.mp hother).symm.imp_right mem_singleton.mpr
  | scopesLocked placement candidate rest =>
    rw [hphase] at hadv
    cases hadv
    exact h.recount hproc hphase
  | selected placement candidate =>
    rw [hphase] at hadv
    cases hadv
    exact h.insert hproc hphase
  | inserted placement candidate =>
    rw [hphase] at hadv
    cases hadv
    exact h.commit hproc hphase

theorem sound_initial : Sound rules .initial where
  writes := .refl
  admission :=
    ⟨(fun ⟨_, hmem, _⟩ => nomatch hmem), (fun ⟨_, hmem, _⟩ => nomatch hmem),
      (fun ⟨_, hmem, _⟩ => nomatch hmem)⟩
  fits := fun _ hmem => nomatch hmem
  rows := fun _ hmem => nomatch hmem

theorem Reachable.sound (h : Reachable rules σ) : Sound rules σ := by
  induction h with
  | initial => exact sound_initial
  | step _ hstep ih =>
    cases hstep with
    | begin id request epoch hid hvalid hepoch => exact ih.begin hid request epoch
    | advance process start σ' hproc hadv => exact ih.advance hproc hadv
    | rollback process hproc => exact ih.rollback process
    | other transaction hother hrows => exact ih.other hother hrows

/-- However the statements of claims interleave with each other and with transactions, a
    lock has one holder and the Jobs, the queue and the Leases stay in step. -/
theorem interleaved_sound (h : Reachable rules σ) :
    (∀ process ∈ σ.claims.rows, ∀ other ∈ σ.claims.rows, ∀ lock ∈ process.locks,
      lock ∈ other.locks → process = other) ∧
      σ.store.Linked ∧ σ.store.QueueScoped ∧ σ.store.dispatch.Sound :=
  have hsound := h.sound
  ⟨fun _ hproc _ hother _ => hsound.held_eq hproc hother, hsound.linked,
    hsound.writes.queueScoped, hsound.dispatch⟩

/-- When a claim commits its Lease, its Pool and the Project and the
    configuration version of its Job hold no more current Leases than the limits
    the claim read. -/
theorem commit_within_limits (h : Reachable rules σ) (hproc : process ∈ σ.claims.rows)
    {placement : ClaimPlacement} {candidate : Candidate}
    (hphase : process.phase = .inserted placement candidate) {store : StoreState}
    (htake : σ.store.takeJob (leaseOf process placement candidate) = .ok store) :
    let after := (σ.commit process placement candidate).store
    ∃ path, after.locate candidate.entry.jobId = some path ∧
      after.poolLoad process.request.poolId ≤ placement.pool.concurrencyLimit ∧
      after.projectLoad path.build.projectId ≤
        candidate.path.build.projectJobConcurrencyLimit ∧
      after.configurationLoad path.build.configuration ≤
        candidate.entry.configuration.jobConcurrencyLimit := by
  have hsound := h.sound
  have hwrite := hsound.take hproc hphase htake
  have hfits := ((hsound.fits process hproc).evolution hwrite.evolution)
  obtain ⟨path, hpath, hsame⟩ := hfits.located candidate (by rw [hphase]; exact mem_cons_self)
  obtain ⟨hprojectId, hconf⟩ := Prod.mk.inj hsame
  have hplacement : process.phase.placement? = some placement := by rw [hphase]; rfl
  have hsel : process.phase.selected? = some candidate := by rw [hphase]; rfl
  have hload : ∀ {scope limit}, process.Checked scope limit → store.scopeLoad scope ≤ limit := by
    intro scope limit hchk
    have hbef := (hsound.checked hproc hchk).2
    have hafter := (takeJob_scopeLoad hsound.linked hwrite.evolution htake scope).1
    omega
  have hcmt : (σ.commit process placement candidate).store = { store with
      idempotency := (σ.commit process placement candidate).store.idempotency } := by
    rw [ClaimSystem.commit, htake]
  intro after
  refine ⟨path, ?_, ?_, ?_, ?_⟩
  · rw [show after = _ from hcmt]
    exact hpath
  · rw [show after = _ from hcmt]
    exact hload (.pool hplacement)
  · rw [show after = _ from hcmt, ← hprojectId]
    exact hload (.project hsel)
  · rw [show after = _ from hcmt, ← hconf]
    exact hload (.configuration hsel)

/-! ## A claim on its own -/

namespace Sample

open StoreState.Sample

/-- Executes the next statement of each of the claims in turn. -/
def advances (rules : CoreRules) : List Nat → ClaimSystem → Option ClaimSystem
  | [], σ => some σ
  | id :: ids, σ =>
    (σ.claims.find? id).bind fun process => (σ.advance rules process 0).bind (advances rules ids)

theorem advances_reachable {rules : CoreRules} {ids : List Nat} {σ σ' : ClaimSystem}
    (hσ : Reachable rules σ) (h : advances rules ids σ = some σ') : Reachable rules σ' := by
  induction ids generalizing σ with
  | nil =>
    cases h
    exact hσ
  | cons id ids ih =>
    obtain ⟨process, hfound, h⟩ := Option.bind_eq_some_iff.mp h
    obtain ⟨next, hadv, h⟩ := Option.bind_eq_some_iff.mp h
    exact ih (hσ.step (.advance process 0 next (Table.mem_of_find? hfound) hadv)) h

theorem one_lt_bigint : 1 < 2 ^ 63 := by decide

def firstEpoch : Bigint := ⟨1, one_lt_bigint⟩

/-- Two Agents, each in a Pool of its own. -/
def pairFleet : Administration where
  agents := ⟨[⟨⟨1⟩, ⟨1⟩, .online, true, 1⟩, ⟨⟨2⟩, ⟨2⟩, .online, true, 1⟩], by decide⟩
  registrations := ⟨[⟨⟨1⟩, ⟨1⟩, firstEpoch, ⟨[], "{}"⟩, 1, false, instant 900⟩,
    ⟨⟨2⟩, ⟨2⟩, firstEpoch, ⟨[], "{}"⟩, 1, false, instant 900⟩], by decide⟩
  pools := ⟨[⟨⟨1⟩, 1, true, .accepting, "any", 1, .fifo, instant 0⟩,
    ⟨⟨2⟩, 1, true, .accepting, "any", 1, .fifo, instant 0⟩], by decide⟩

/-- A Job for each Pool; the Project runs two at a time. -/
def pairBuild : MaterializeBuild :=
  { onlyBuild with
    build := ⟨⟨1⟩, ⟨1⟩, ⟨⟨1⟩, 1, 2, 3, true⟩, 2, 0⟩
    jobs := [onlyJob, { onlyJob with
      id := ⟨2⟩
      pipelineNodeId := "test"
      allowedPools := [⟨2⟩]
      jobSpecTemplate := ⟨⟨1⟩, "test", .legacy, "{}"⟩ }] }

def pairClaim : JobClaim :=
  { onlyClaim with leaseId := ⟨2⟩, fence := ⟨2⟩, agentId := ⟨2⟩, poolId := ⟨2⟩ }

/-- Both Jobs are queued and a claim of each Pool has begun. -/
def claiming : ClaimSystem :=
  update (update ⟨run acceptAll .initial [.administer pairFleet, .materialize pairBuild], .empty⟩
    ⟨0, onlyClaim, firstEpoch, [], .begun⟩) ⟨1, pairClaim, firstEpoch, [], .begun⟩

theorem claiming_reachable : Reachable acceptAll claiming := by
  have hfleet : Reachable acceptAll _ :=
    Reachable.initial.step (.other (.administer pairFleet) rfl rfl)
  have hbuild : Reachable acceptAll _ := hfleet.step (.other (.materialize pairBuild) rfl rfl)
  have hfirst : Reachable acceptAll _ := hbuild.step (.begin 0 onlyClaim firstEpoch rfl rfl rfl)
  exact hfirst.step (.begin 1 pairClaim firstEpoch rfl rfl rfl)

theorem interleaved_sound_claiming : claiming.store.dispatch.Sound :=
  (interleaved_sound claiming_reachable).2.2.2

/-- The claim of that number, once its Lease is about to be committed. -/
def inserting (id : Nat) (σ : ClaimSystem) :
    Option { process : ClaimProcess × ClaimPlacement × Candidate //
      process.1 ∈ σ.claims.rows ∧ process.1.phase = .inserted process.2.1 process.2.2 } :=
  match hfound : σ.claims.find? id with
  | none => none
  | some process =>
    match hphase : process.phase with
    | .inserted placement candidate =>
      some ⟨(process, placement, candidate), Table.mem_of_find? hfound, hphase⟩
    | _ => none

/-- The second claim finds the Project locked by the first one and reads its page again; it holds a
Lease when the first has committed, and both are within the limits. -/
theorem commit_within_limits_once : ∃ σ process placement candidate path,
    Reachable acceptAll σ ∧ process ∈ σ.claims.rows ∧ σ.store.projectLoad ⟨1⟩ = 1 ∧
      (σ.commit process placement candidate).store.locate candidate.entry.jobId = some path ∧
      (σ.commit process placement candidate).store.poolLoad process.request.poolId ≤
        placement.pool.concurrencyLimit ∧
      (σ.commit process placement candidate).store.projectLoad path.build.projectId ≤ 2 := by
  have hrun : ((advances acceptAll [0, 1, 0, 1, 0, 1, 0, 1, 0, 1, 0, 1, 0, 0, 0, 1, 1, 1, 1, 1]
      claiming).bind fun σ => (inserting 1 σ).bind fun ready =>
        (σ.store.takeJob (leaseOf ready.1.1 ready.1.2.1 ready.1.2.2)).toOption.map fun _ =>
          (σ.store.projectLoad ⟨1⟩, ready.1.2.2.path.build.projectJobConcurrencyLimit)) =
            some (1, 2) := by
    decide +kernel
  obtain ⟨σ, hσ, hrun⟩ := Option.bind_eq_some_iff.mp hrun
  obtain ⟨⟨⟨process, placement, candidate⟩, hproc, hphase⟩, -, hrun⟩ :=
    Option.bind_eq_some_iff.mp hrun
  obtain ⟨store, htake, hloads⟩ := Option.map_eq_some_iff.mp hrun
  obtain ⟨hbef, hlimit⟩ := Prod.mk.inj hloads
  have hreach := advances_reachable claiming_reachable hσ
  obtain ⟨path, hpath, hpool, hproj, -⟩ := commit_within_limits hreach hproc hphase
    (toOption_eq_some.mp htake)
  exact ⟨σ, process, placement, candidate, path, hreach, hproc, hbef, hpath, hpool,
    hlimit ▸ hproj⟩

end Sample

end ClaimSystem

end OctaCity.Store
