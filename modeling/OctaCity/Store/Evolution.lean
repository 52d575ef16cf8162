/-
  OctaCity.Store.Evolution

  What the rows of the store keep.  Nothing is deleted: a write changes the state
  of a row, or adds a row whose references exist (`WriteIn.evolution`).
-/
import OctaCity.Store.Steps

namespace OctaCity.Store

open Domain Job LeaseRow Lib List Orchestrator Pipeline Table

/-! ## Rows -/

/-- An ended Job keeps its state, a Job a cancellation reached stays out of the
    queue, and no Job becomes blocked again. -/
structure JobState.Advances (state state' : JobState) : Prop where
  terminal : state.isTerminal = true → state' = state
  targeted : isUntargeted state = false → isUntargeted state' = false
  blocked : state' = .blocked → state = .blocked

theorem JobState.advances_refl (state : JobState) : JobState.Advances state state :=
  ⟨fun _ => rfl, fun h => h, fun h => h⟩

variable {state : JobState}

/-- An untargeted Job moves on to anything but blocked. -/
theorem JobState.advances_of {state' : JobState} (huntgt : isUntargeted state = true)
    (hstate : state' ≠ .blocked) : JobState.Advances state state' := by
  refine ⟨fun h => ?_, fun h => ?_, fun h => absurd h hstate⟩
  · cases state <;> cases h <;> cases huntgt
  · rw [huntgt] at h
    cases h

/-- A held Job ends. -/
theorem JobState.advances_of_isHeld {state' : JobState} (hheld : isHeld state = true)
    (hterm : state'.isTerminal = true) : JobState.Advances state state' := by
  refine ⟨fun h => ?_, fun _ => ?_, fun h => ?_⟩
  · cases state <;> cases h <;> cases hheld
  · cases state' <;> cases hterm <;> rfl
  · rw [h] at hterm
    cases hterm

theorem JobState.Advances.trans {a b c : JobState} (h : JobState.Advances a b)
    (h' : JobState.Advances b c) : JobState.Advances a c := by
  refine ⟨fun ha => ?_, fun ha => h'.targeted (h.targeted ha), fun hc => h.blocked (h'.blocked hc)⟩
  have hb := h.terminal ha
  rw [h'.terminal (by rw [hb]; exact ha), hb]

def JobRow.Advances (row row' : JobRow) : Prop :=
  row.Follows row' ∧ JobState.Advances row.state row'.state

def AttemptRow.Advances (row row' : AttemptRow) : Prop := row' = { row with state := row'.state }

def BuildRow.Advances (row row' : BuildRow) : Prop :=
  row' = { row with state := row'.state, logsVisible := row'.logsVisible }

/-- A Lease that is not current any more keeps its row. -/
def LeaseRow.Advances (row row' : LeaseRow) : Prop :=
  row' = { row with state := row'.state, expiresAt := row'.expiresAt } ∧
    (row.state.isCurrent = false → row' = row)

def RegistrationRow.Advances (row row' : RegistrationRow) : Prop :=
  row' = row ∨ row' = row.withRevoked true

theorem JobRow.advances_refl (row : JobRow) : row.Advances row :=
  ⟨row.follows_refl, JobState.advances_refl _⟩

theorem JobRow.advances_trans (a b c : JobRow) (h : a.Advances b) (h' : b.Advances c) :
    a.Advances c :=
  ⟨h.1.trans h'.1, h.2.trans h'.2⟩

theorem AttemptRow.advances_refl (row : AttemptRow) : row.Advances row := rfl

theorem BuildRow.advances_refl (row : BuildRow) : row.Advances row := rfl

theorem LeaseRow.advances_refl (row : LeaseRow) : row.Advances row := ⟨rfl, fun _ => rfl⟩

theorem RegistrationRow.advances_refl (row : RegistrationRow) : row.Advances row := .inl rfl

theorem LeaseRow.Advances.jobId {row row' : LeaseRow} (h : row.Advances row') :
    row'.jobId = row.jobId := by rw [h.1]

theorem LeaseRow.Advances.registrationId {row row' : LeaseRow} (h : row.Advances row') :
    row'.registrationId = row.registrationId := by rw [h.1]

theorem RegistrationRow.Advances.agentId {row row' : RegistrationRow} (h : row.Advances row') :
    row'.agentId = row.agentId := by
  obtain rfl | rfl := h <;> rfl

theorem AttemptRow.Advances.buildId {row row' : AttemptRow} (h : row.Advances row') :
    row'.buildId = row.buildId := by rw [h]

namespace StoreState

variable {rules : CoreRules} {s s' : StoreState}

/-- How the tables of the store may change. -/
structure Evolution (s s' : StoreState) : Prop where
  agents : ∀ id, s.agents.contains id = true → s'.agents.contains id = true := by exact fun _ h => h
  registrations : s.registrations.Evolves RegistrationRow.Advances
    (fun row => s'.agents.contains row.agentId = true) s'.registrations := by
      exact .refl RegistrationRow.advances_refl _
  builds : s.builds.Evolves BuildRow.Advances (fun _ => True) s'.builds := by
    exact .refl BuildRow.advances_refl _
  attempts : s.attempts.Evolves AttemptRow.Advances
    (fun row => ∃ build, s'.builds.find? row.buildId = some build) s'.attempts := by
      exact .refl AttemptRow.advances_refl _
  jobs : s.jobs.Evolves JobRow.Advances
    (fun row => (∃ attempt, s'.attempts.find? row.attemptId = some attempt) ∧
      s.attempts.find? row.attemptId = none) s'.jobs := by
        exact .refl JobRow.advances_refl _
  leases : s.leases.Evolves LeaseRow.Advances
    (fun row => (∃ job, s'.jobs.find? row.jobId = some job) ∧
      ∃ registration, s'.registrations.find? row.registrationId = some registration) s'.leases := by
        exact .refl advances_refl _
  completions : s.jobCompletions.Evolves Eq
    (fun row => (∃ lease, s'.leases.find? row.leaseId = some lease ∧ lease.jobId = row.jobId) ∧
      row.wellFormed = true ∧ ∃ state, s'.stateOf row.jobId = some state ∧ state.isTerminal = true)
    s'.jobCompletions := by exact .refl Eq.refl _
  cancellations : s.buildCancellations.Evolves Eq (fun _ => True) s'.buildCancellations := by
    exact .refl Eq.refl _
  records : s.idempotency.Grows s'.idempotency := by exact .refl _
  events : s.jobEvents <+: s'.jobEvents := by exact prefix_rfl

/-- A store that stays as it is. -/
theorem Evolution.refl (s : StoreState) : Evolution s s where

/-- One row is added. -/
theorem evolves_of_insert {Row κ : Type} [LinearOrder κ] [DecidableEq κ] {key : Row → κ}
    {follows : Row → Row → Prop} {p : Row → Prop} {t t' : Table key} {row : Row}
    (hrefl : ∀ a, follows a a) (hfresh : t.find? (key row) = none) (hnew : p row)
    (hfind : ∀ k, t'.find? k = if key row = k then some row else t.find? k) :
    t.Evolves follows p t' := by
  constructor
  · intro k a ha
    refine ⟨a, ?_, hrefl a⟩
    rw [hfind, if_neg, ha]
    rintro rfl
    rw [hfresh] at ha
    cases ha
  · intro k a ha
    rw [hfind] at ha
    split at ha
    · rename_i hk
      cases ha
      exact .inr ⟨by rw [← hk]; exact hfresh, hnew⟩
    · exact .inl ⟨a, ha, hrefl a⟩

/-- Rows are changed in place, as a lookup finds them. -/
theorem evolves_of_find? {Row κ : Type} [LinearOrder κ] {key : Row → κ}
    {follows : Row → Row → Prop} {new : Row → Prop} {t t' : Table key} {f : Row → Row}
    (hfind : ∀ k, t'.find? k = (t.find? k).map f)
    (hf : ∀ k row, t.find? k = some row → follows row (f row)) : t.Evolves follows new t' := by
  constructor
  · intro k row hrow
    exact ⟨f row, by rw [hfind, hrow]; rfl, hf k row hrow⟩
  · intro k row hrow
    rw [hfind, Option.map_eq_some_iff] at hrow
    obtain ⟨before, hbef, rfl⟩ := hrow
    exact .inl ⟨before, hbef, hf k before hbef⟩

variable {new : JobRow → Prop} {job : JobRow} {lease : LeaseRow} {attemptId : AttemptId}

theorem Edits.evolves {next : JobId → JobState → JobState} (h : Edits next s.jobs s'.jobs)
    (hnext : ∀ id state, s.stateOf id = some state → JobState.Advances state (next id state)) :
    s.jobs.Evolves JobRow.Advances new s'.jobs := by
  obtain ⟨f, hf, hjobs, hfol⟩ := h
  rw [hjobs]
  refine Table.Evolves.mapRows hf fun id row hrow => ⟨(hfol row).1, ?_⟩
  rw [(hfol row).2, key_of_find? hrow]
  exact hnext id row.state (stateOf_eq_some.mpr ⟨row, hrow, rfl⟩)

/-- One Job moves. -/
theorem Edits.evolves_one {jobId : JobId}
    (h : Edits (fun id current => if id = jobId then state else current) s.jobs s'.jobs)
    (hjob : s.jobs.find? jobId = some job) (hmove : JobState.Advances job.state state) :
    s.jobs.Evolves JobRow.Advances new s'.jobs := by
  refine h.evolves fun id current hcur => ?_
  by_cases hid : id = jobId
  · rw [if_pos hid]
    rw [hid, stateOf_eq_some] at hcur
    obtain ⟨found, hfound, rfl⟩ := hcur
    rw [Option.some.inj (hjob.symm.trans hfound)] at hmove
    exact hmove
  · rw [if_neg hid]
    exact JobState.advances_refl current

theorem unblocked_advances {ready skipped : List JobId} (id : JobId) (state : JobState) :
    JobState.Advances state (unblocked ready skipped id state) := by
  unfold unblocked
  split
  · rename_i hblk
    subst hblk
    exact ⟨fun h => absurd h Bool.false_ne_true, fun h => absurd h.symm Bool.false_ne_true,
      fun _ => rfl⟩
  · exact JobState.advances_refl state

theorem setAttemptState_evolves (attemptId : AttemptId) (state : AttemptState)
    {new : AttemptRow → Prop} :
    s.attempts.Evolves AttemptRow.Advances new (s.setAttemptState attemptId state).attempts :=
  .updateWhere AttemptRow.advances_refl (AttemptRow.withState_id state) fun _ _ _ _ => rfl

theorem setBuildState_evolves (buildId : BuildId) (state : BuildState) {new : BuildRow → Prop} :
    s.builds.Evolves BuildRow.Advances new (s.setBuildState buildId state).builds :=
  .updateWhere BuildRow.advances_refl (BuildRow.withState_id state) fun _ _ _ _ => rfl

/-- A change of states among current Leases. -/
theorem updateLeases_evolves {p : LeaseRow → Bool} {state : LeaseState} {new : LeaseRow → Prop}
    (hcur : ∀ id row, s.leases.find? id = some row → p row = true →
      row.state.isCurrent = true) :
    s.leases.Evolves LeaseRow.Advances new (s.updateLeases p state).leases := by
  refine .updateWhere advances_refl (withState_id state) fun id row hrow hp =>
    ⟨rfl, fun hended => ?_⟩
  rw [hcur id row hrow hp] at hended
  cases hended

theorem closeLease_evolves {state : LeaseState} {new : LeaseRow → Prop}
    (hlease : s.leases.find? lease.id = some lease) (hcur : lease.state.isCurrent = true) :
    s.leases.Evolves LeaseRow.Advances new (s.closeLease lease.id state).leases := by
  refine updateLeases_evolves fun id row hrow hid => ?_
  have hkey : lease.id = id := (of_decide_eq_true hid).symm.trans (key_of_find? hrow)
  rw [hkey, hrow] at hlease
  rw [Option.some.inj hlease]
  exact hcur

theorem takesDirective_isCurrent {state : LeaseState} (h : state.takesDirective = true) :
    state.isCurrent = true := by
  cases state <;> first | rfl | cases h

theorem redirectLeases_evolves {p : LeaseRow → Bool} {state : LeaseState} {new : LeaseRow → Prop} :
    s.leases.Evolves LeaseRow.Advances new (s.redirectLeases p state).leases :=
  updateLeases_evolves fun _ _ _ hp => takesDirective_isCurrent (of_decide_eq_true hp).2

/-- The rows a materialization adds. -/
theorem materializeAttempt_evolves {attempt : AttemptRow} {jobs : List MaterializedJob}
    {createdAt : Timestamp} {p : AttemptRow → Prop} (hnew : p attempt)
    (h : s.materializeAttempt rules attempt jobs createdAt = .ok s') :
    s.attempts.Evolves AttemptRow.Advances p s'.attempts ∧ s.jobs.Evolves JobRow.Advances
      (fun row => (∃ attempt, s'.attempts.find? row.attemptId = some attempt) ∧
        s.attempts.find? row.attemptId = none) s'.jobs := by
  obtain ⟨hother, hfresh, hatts, -, ⟨table, hins, hedits⟩, -⟩ := materializeAttempt_eq_ok h
  constructor
  · exact evolves_of_insert AttemptRow.advances_refl hfresh hnew hatts
  · have hstay : ∀ a b : JobRow, (∃ attempt, s'.attempts.find? a.attemptId = some attempt) ∧
        s.attempts.find? a.attemptId = none → a.Advances b →
          (∃ attempt, s'.attempts.find? b.attemptId = some attempt) ∧
            s.attempts.find? b.attemptId = none := by
      intro a b ha hab
      rw [hab.1.attemptId]
      exact ha
    refine (Table.Evolves.insertAll JobRow.advances_refl JobRow.advances_trans hstay ?_ hins).trans
      JobRow.advances_trans hstay ?_
    · intro row hrow
      obtain ⟨job, -, rfl⟩ := mem_map.mp hrow
      exact ⟨⟨attempt, by rw [hatts]; exact if_pos rfl⟩, hfresh⟩
    · obtain ⟨f, hf, hjobs, hfol⟩ := hedits
      rw [hjobs]
      refine Table.Evolves.mapRows hf fun id row hrow => ⟨(hfol row).1, ?_⟩
      rw [(hfol row).2]
      exact JobState.advances_refl _

theorem attemptJobs_stateOf
    (hjob : job ∈ s.attemptJobs attemptId) : s.stateOf job.id = some job.state :=
  stateOf_eq_some.mpr ⟨job, Table.find?_of_mem _ (mem_attemptJobs.mp hjob).1, rfl⟩

theorem Administration.evolves {change : Administration} (hallow : change.isAllowed s = true) :
    (∀ id, s.agents.contains id = true → change.agents.contains id = true) ∧
      s.registrations.Evolves RegistrationRow.Advances
        (fun row => change.agents.contains row.agentId = true) change.registrations := by
  obtain ⟨hagents, hregs, howners⟩ := of_decide_eq_true hallow
  rw [all_eq_true] at hagents hregs howners
  refine ⟨fun id hid => ?_, fun id row hrow => ?_, fun id row hrow => ?_⟩
  · obtain ⟨row, hrow, rfl⟩ := (contains_iff _ _).mp hid
    exact hagents row hrow
  · have hkept := of_decide_eq_true (hregs row (mem_of_find? hrow))
    rw [key_of_find? hrow] at hkept
    obtain hsame | hrevoked := hkept
    · exact ⟨row, hsame, .inl rfl⟩
    · exact ⟨_, hrevoked, .inr rfl⟩
  · cases hold : s.registrations.find? id with
    | none => exact .inr ⟨rfl, howners row (mem_of_find? hrow)⟩
    | some before =>
      have hkept := of_decide_eq_true (hregs before (mem_of_find? hold))
      rw [key_of_find? hold, hrow] at hkept
      refine .inl ⟨before, rfl, ?_⟩
      obtain hsame | hrevoked := hkept
      · exact .inl (Option.some.inj hsame)
      · exact .inr (Option.some.inj hrevoked)

theorem accept_evolution {s₁ : StoreState} {build : BuildRow} {attempt : AttemptRow}
    {jobs : List MaterializedJob} {createdAt : Timestamp} (hins : s.insertBuild build = .ok s₁)
    (hatt : attempt.buildId = build.id)
    (hmat : s₁.materializeAttempt rules attempt jobs createdAt = .ok s') :
    Evolution s s' := by
  obtain ⟨hother₁, hfresh, hblds⟩ := insertBuild_eq_ok hins
  have hother := (materializeAttempt_eq_ok hmat).1
  have hsame : s'.builds = s₁.builds := by rw [hother]
  obtain ⟨hatts, hjobs⟩ := materializeAttempt_evolves
    (p := fun row => ∃ build, s'.builds.find? row.buildId = some build)
    ⟨build, by rw [hsame, hblds, hatt, if_pos rfl]⟩ hmat
  have hadded : s.builds.Evolves BuildRow.Advances (fun _ => True) s'.builds := by
    rw [hsame]
    exact evolves_of_insert BuildRow.advances_refl hfresh trivial hblds
  rw [hother₁] at hatts hjobs hother
  rw [hother] at hatts hjobs hadded ⊢
  exact { Evolution.refl _ with
    builds := hadded
    attempts := hatts
    jobs := hjobs
    leases := .refl advances_refl _
    completions := .refl Eq.refl _ }

theorem retry_evolution {build : BuildRow} {attempt : AttemptRow} {jobs : List MaterializedJob}
    {createdAt : Timestamp} (hbuild : s.builds.find? attempt.buildId = some build)
    (hmat : s.materializeAttempt rules attempt jobs createdAt = .ok s') :
    Evolution s (s'.setBuildState attempt.buildId .running) := by
  have hother := (materializeAttempt_eq_ok hmat).1
  have hsame : s'.builds = s.builds := by rw [hother]
  have hblds : s.builds.Evolves BuildRow.Advances (fun _ => True)
      (s'.setBuildState attempt.buildId .running).builds := by
    rw [← hsame]
    exact setBuildState_evolves _ _
  obtain ⟨reopened, hreopened, -⟩ := hblds.grows attempt.buildId build hbuild
  obtain ⟨hatts, hjobs⟩ := materializeAttempt_evolves
    (p := fun row => ∃ build,
      (s'.setBuildState attempt.buildId .running).builds.find? row.buildId = some build)
    ⟨reopened, hreopened⟩ hmat
  rw [hother] at hatts hjobs hblds ⊢
  exact { Evolution.refl _ with
    builds := hblds
    attempts := hatts
    jobs := hjobs
    leases := .refl advances_refl _
    completions := .refl Eq.refl _ }

theorem take_evolution {registration : RegistrationRow}
    (hjob : s.jobs.find? lease.jobId = some job) (hready : job.state = .ready)
    (hreg : s.registrations.find? lease.registrationId = some registration)
    (htake : s.takeJob lease = .ok s') : Evolution s s' := by
  obtain ⟨hother, hedits, -, hlses, hfresh, -⟩ := takeJob_eq_ok htake
  have hjobs : s.jobs.Evolves JobRow.Advances
      (fun row => (∃ attempt, s'.attempts.find? row.attemptId = some attempt) ∧
        s.attempts.find? row.attemptId = none) s'.jobs :=
    hedits.evolves_one hjob (by rw [hready]; exact JobState.advances_of rfl (by simp))
  obtain ⟨taken, htaken, -⟩ := hjobs.grows _ _ hjob
  have hregs : s'.registrations = s.registrations := by rw [hother]
  have hadded := evolves_of_insert advances_refl hfresh
    (p := fun row => (∃ job, s'.jobs.find? row.jobId = some job) ∧
      ∃ registration, s'.registrations.find? row.registrationId = some registration)
    ⟨⟨taken, htaken⟩, registration, by rw [hregs]; exact hreg⟩ hlses
  rw [hother] at hjobs hadded ⊢
  exact { Evolution.refl _ with
    jobs := hjobs
    leases := hadded
    completions := .refl Eq.refl _ }

theorem renew_evolution {expiresAt : Timestamp}
    (hlease : s.leases.find? lease.id = some lease) (hcur : lease.state.isCurrent = true)
    (hrenew : s.renewDeadline lease.id expiresAt = .ok s') : Evolution s s' := by
  obtain ⟨hother, hlses⟩ := renewDeadline_eq_ok hrenew
  have hrenewed : s.leases.Evolves LeaseRow.Advances
      (fun row => (∃ job, s.jobs.find? row.jobId = some job) ∧
        ∃ registration, s.registrations.find? row.registrationId = some registration)
      s'.leases := by
    refine evolves_of_find? hlses fun id row hrow => ?_
    split
    · rename_i hid
      refine ⟨rfl, fun hended => ?_⟩
      have hsame : row = lease := by
        rw [← hid, key_of_find? hrow, hrow] at hlease
        exact Option.some.inj hlease
      rw [hsame, hcur] at hended
      cases hended
    · exact advances_refl row
  rw [hother] at hrenewed ⊢
  exact { Evolution.refl _ with leases := hrenewed, completions := .refl Eq.refl _ }

/-- The open Jobs of an Attempt: those nobody owns, and those an Agent holds. -/
structure Cancels (s : StoreState) (attemptId : AttemptId) (cancelled cancelling : List JobId) :
    Prop where
  cancelled : ∀ id, id ∈ cancelled ↔ ∃ job ∈ s.attemptJobs attemptId, job.id = id ∧
    (job.state = .blocked ∨ job.state = .ready)
  cancelling : ∀ id, id ∈ cancelling ↔ ∃ job ∈ s.attemptJobs attemptId, job.id = id ∧
    (job.state = .leased ∨ job.state = .running)

/-- The states a cancellation writes are later states of the same Jobs. -/
theorem propagate_evolves {cancelled cancelling : List JobId}
    (hcancels : Cancels s attemptId cancelled cancelling) :
    s.jobs.Evolves JobRow.Advances new (s.propagate cancelled cancelling).jobs := by
  refine (propagate_edits cancelled cancelling).evolves fun id state hstate => ?_
  have hfound : ∀ job ∈ s.attemptJobs attemptId, job.id = id → job.state = state := by
    rintro job hjob rfl
    exact Option.some.inj ((attemptJobs_stateOf hjob).symm.trans hstate)
  unfold propagated
  split
  · rename_i hmem
    obtain ⟨job, hjob, hid, hheld⟩ := (hcancels.cancelling id).mp hmem
    rw [← hfound job hjob hid]
    obtain hheld | hheld := hheld <;> rw [hheld] <;> exact JobState.advances_of rfl (by simp)
  · split
    · rename_i hmem
      obtain ⟨job, hjob, hid, hfree⟩ := (hcancels.cancelled id).mp hmem
      rw [← hfound job hjob hid]
      obtain hfree | hfree := hfree <;> rw [hfree] <;> exact JobState.advances_of rfl (by simp)
    · exact JobState.advances_refl state

/-- A cancellation moves Jobs, their queue entries and their Leases. -/
theorem propagate_eq (cancelled cancelling : List JobId) :
    s.propagate cancelled cancelling =
      { s with
        jobs := (s.propagate cancelled cancelling).jobs
        readyQueue := (s.propagate cancelled cancelling).readyQueue
        leases := (s.propagate cancelled cancelling).leases } := rfl

theorem aggregate_eq (attemptId : AttemptId) (buildId : BuildId) (attemptState : AttemptState)
    (buildState : BuildState) :
    s.aggregate attemptId buildId attemptState buildState =
      { s with
        attempts := (s.setAttemptState attemptId attemptState).attempts
        builds := (s.setBuildState buildId buildState).builds } := rfl

/-- Reconciliation writes Jobs, the queue, Attempts and Builds. -/
theorem reconcileAndApply_frame {buildId : BuildId}
    {transitionedAt : Timestamp} {applied : AppliedOrchestration}
    (h : s.reconcileAndApply rules attemptId buildId transitionedAt = .ok (applied, s')) :
    s' = { s with
      jobs := s'.jobs
      readyQueue := s'.readyQueue
      enqueueOrder := s'.enqueueOrder
      attempts := s'.attempts
      builds := s'.builds } := by
  obtain ⟨nodes, decision, final, s₁, -, -, hunblk, rfl, -⟩ := reconcileAndApply_eq_ok h
  rw [aggregate_eq, (unblock_eq_ok hunblk).1]

theorem propagate_leases (cancelled cancelling : List JobId) :
    (s.propagate cancelled cancelling).leases =
      (s.redirectLeases (fun row => row.jobId ∈ cancelling) .cancellationRequested).leases := rfl

theorem cancel_evolution {attempt : AttemptRow} {cancelled cancelling : List JobId}
    {attemptState : AttemptState} {buildState : BuildState} {row : BuildCancellationRow}
    (hcancels : Cancels s attempt.id cancelled cancelling)
    (hins : ((s.propagate cancelled cancelling).aggregate attempt.id attempt.buildId attemptState
      buildState).insertCancellation row = .ok s') : Evolution s s' := by
  obtain ⟨hother, hfresh, hfind⟩ := insertCancellation_eq_ok hins
  rw [aggregate_eq, propagate_eq] at hfresh hfind hother
  have hadded := evolves_of_insert (p := fun _ => True) Eq.refl hfresh trivial hfind
  rw [hother] at hadded ⊢
  exact { Evolution.refl _ with
    builds := setBuildState_evolves _ _
    attempts := setAttemptState_evolves _ _
    jobs := propagate_evolves hcancels
    leases := by
      rw [propagate_leases]
      exact redirectLeases_evolves
    completions := .refl Eq.refl _
    cancellations := hadded }

theorem complete_evolution {row : JobCompletionRow}
    (hjob : s.jobs.find? row.jobId = some job) (hterm : job.state.isTerminal = true)
    (hlease : s.leases.find? row.leaseId = some lease) (hsame : lease.jobId = row.jobId)
    (hins : s.insertCompletion row = .ok s') : Evolution s s' := by
  obtain ⟨hother, hwell, hfresh, hfind⟩ := insertCompletion_eq_ok hins
  have hadded : s.jobCompletions.Evolves Eq
      (fun row => (∃ lease, s.leases.find? row.leaseId = some lease ∧ lease.jobId = row.jobId) ∧
        row.wellFormed = true ∧ ∃ state, s.stateOf row.jobId = some state ∧ state.isTerminal = true)
      s'.jobCompletions :=
    evolves_of_insert Eq.refl hfresh
      ⟨⟨lease, hlease, hsame⟩, hwell, _, stateOf_eq_some.mpr ⟨job, hjob, rfl⟩, hterm⟩ hfind
  rw [hother] at hadded ⊢
  exact { Evolution.refl _ with completions := hadded }

theorem begin_evolution (jobId : JobId) :
    Evolution s (s.updateJobs (fun row => row.id = jobId ∧ row.state = .leased) .running) := by
  refine { Evolution.refl _ with
    jobs := (updateJobs_edits _ .running
      (fun id state => id = jobId ∧ state = .leased) (by simp)).evolves fun id state _ => ?_
    leases := .refl advances_refl _
    completions := .refl Eq.refl _ }
  simp only [decide_eq_true_eq]
  split
  · rename_i hleased
    rw [hleased.2]
    exact JobState.advances_of rfl (by simp)
  · exact JobState.advances_refl state

/-- What one write does to the rows of the store. -/
theorem WriteIn.evolution {timed grants : Bool} (h : WriteIn rules timed grants s s') :
    Evolution s s' := by
  cases h with
  | record hgrows huntim => exact { Evolution.refl _ with records := hgrows }
  | administer hallow =>
    obtain ⟨hagents, hregs⟩ := Administration.evolves hallow
    exact { Evolution.refl _ with
      agents := hagents
      registrations := hregs
      leases := .refl advances_refl _ }
  | agents hkeeps =>
    exact { Evolution.refl _ with
      agents := hkeeps
      registrations := .refl RegistrationRow.advances_refl _ }
  | hideLogs =>
    exact { Evolution.refl _ with
      builds := .updateWhere BuildRow.advances_refl BuildRow.withoutLogs_id fun _ _ _ _ => rfl
      attempts := .refl AttemptRow.advances_refl _ }
  | accept hbuild hins hatt hstate hgraph hmat =>
    exact accept_evolution hins hatt hmat
  | retry hbuild hfailed hsrc hlost hnum hstate hgraph hmat =>
    exact retry_evolution hbuild hmat
  | take hgrant hjob hready hreg hfree hact htake =>
    exact take_evolution hjob hready hreg htake
  | renew htimed hlease hcur hrenew => exact renew_evolution hlease hcur hrenew
  | begin => exact begin_evolution _
  | events hnumd hbound => exact { Evolution.refl _ with events := prefix_append _ _ }
  | @finish lease job leaseState terminal huntim hlease hcur hended hjob hheld hterm =>
    exact { Evolution.refl _ with
      jobs := (finishJob_edits lease leaseState terminal).evolves_one hjob
        (JobState.advances_of_isHeld hheld hterm)
      leases := closeLease_evolves hlease hcur
      completions := .refl Eq.refl _ }
  | @requeue _ lease path requeues htimed hlease hcur hpath hstate henq =>
    have huntgt : isUntargeted path.job.state = true := by
      obtain hstate | hstate := hstate <;> rw [hstate] <;> rfl
    rw [(enqueue_eq_ok henq).1]
    exact { Evolution.refl _ with
      jobs := (releaseJob_edits lease requeues).evolves_one (locate_eq_some.mp hpath).1
        (JobState.advances_of huntgt (by simp))
      leases := closeLease_evolves hlease hcur
      completions := .refl Eq.refl _ }
  | unblock hunblk =>
    obtain ⟨hother, hedits, -, -⟩ := unblock_eq_ok hunblk
    have hjobs : s.jobs.Evolves JobRow.Advances
        (fun row => (∃ attempt, s.attempts.find? row.attemptId = some attempt) ∧
          s.attempts.find? row.attemptId = none) s'.jobs :=
      hedits.evolves fun id state _ => unblocked_advances id state
    rw [hother] at hjobs ⊢
    exact { Evolution.refl _ with
      jobs := hjobs
      leases := .refl advances_refl _
      completions := .refl Eq.refl _ }
  | aggregate hatt hterm hopen hcanc =>
    exact { Evolution.refl _ with
      builds := setBuildState_evolves _ _
      attempts := setAttemptState_evolves _ _
      jobs := .refl JobRow.advances_refl _ }
  | complete hjob hterm hlease hsame hins =>
    exact complete_evolution hjob hterm hlease hsame hins
  | cancel hbuild hatt hact hcanc hcing hterm hnfail hins =>
    exact cancel_evolution ⟨hcanc, hcing⟩ hins
  | redirect hdir =>
    exact { Evolution.refl _ with
      leases := redirectLeases_evolves
      completions := .refl Eq.refl _ }
  | pools | logs | workerClaims => exact { Evolution.refl s with }

/-! ## References -/

/-- Every reference between the tables has its row. -/
structure Linked (s : StoreState) : Prop where
  agent : ∀ id row, s.registrations.find? id = some row → s.agents.contains row.agentId = true
  build : ∀ id row, s.attempts.find? id = some row → ∃ build, s.builds.find? row.buildId = some build
  attempt : ∀ id row, s.jobs.find? id = some row →
    ∃ attempt, s.attempts.find? row.attemptId = some attempt
  job : ∀ id row, s.leases.find? id = some row → ∃ job, s.jobs.find? row.jobId = some job
  registration : ∀ id row, s.leases.find? id = some row →
    ∃ registration, s.registrations.find? row.registrationId = some registration
  completion : ∀ id row, s.jobCompletions.find? id = some row →
    ∃ lease, s.leases.find? row.leaseId = some lease ∧ lease.jobId = row.jobId

theorem linked_initial : Linked .initial := by
  constructor <;> intro id row h <;> cases h

/-- References stay intact when the rows evolve. -/
theorem Linked.evolution (h : Linked s) (he : Evolution s s') : Linked s' := by
  constructor
  · intro id row hrow
    obtain ⟨before, hbef, hadvs⟩ | ⟨-, hnew⟩ := he.registrations.origin id row hrow
    · rw [hadvs.agentId]
      exact he.agents _ (h.agent id before hbef)
    · exact hnew
  · intro id row hrow
    obtain ⟨before, hbef, hadvs⟩ | ⟨-, hnew⟩ := he.attempts.origin id row hrow
    · rw [hadvs.buildId]
      obtain ⟨build, hbuild⟩ := h.build id before hbef
      obtain ⟨build', hbuild', -⟩ := he.builds.grows _ _ hbuild
      exact ⟨build', hbuild'⟩
    · exact hnew
  · intro id row hrow
    obtain ⟨before, hbef, hadvs⟩ | ⟨-, hnew⟩ := he.jobs.origin id row hrow
    · rw [hadvs.1.attemptId]
      obtain ⟨attempt, hatt⟩ := h.attempt id before hbef
      obtain ⟨attempt', hatt', -⟩ := he.attempts.grows _ _ hatt
      exact ⟨attempt', hatt'⟩
    · exact hnew.1
  · intro id row hrow
    obtain ⟨before, hbef, hadvs⟩ | ⟨-, hnew⟩ := he.leases.origin id row hrow
    · rw [hadvs.jobId]
      obtain ⟨job, hjob⟩ := h.job id before hbef
      obtain ⟨job', hjob', -⟩ := he.jobs.grows _ _ hjob
      exact ⟨job', hjob'⟩
    · exact hnew.1
  · intro id row hrow
    obtain ⟨before, hbef, hadvs⟩ | ⟨-, hnew⟩ := he.leases.origin id row hrow
    · rw [hadvs.registrationId]
      obtain ⟨registration, hreg⟩ := h.registration id before hbef
      obtain ⟨registration', hreg', -⟩ := he.registrations.grows _ _ hreg
      exact ⟨registration', hreg'⟩
    · exact hnew.2
  · intro id row hrow
    obtain ⟨before, hbef, rfl⟩ | ⟨-, hnew⟩ := he.completions.origin id row hrow
    · obtain ⟨lease, hlease, hjob⟩ := h.completion id before hbef
      obtain ⟨lease', hlease', hadvs⟩ := he.leases.grows _ _ hlease
      exact ⟨lease', hlease', hadvs.jobId.trans hjob⟩
    · exact hnew.1

theorem Reachable.linked (h : Reachable rules s) : Linked s :=
  h.induction linked_initial fun _ _ hs hwrite => hs.evolution hwrite.evolution

theorem Linked.locate (h : Linked s) {jobId : JobId}
    (hjob : s.jobs.find? jobId = some job) : ∃ path, s.locate jobId = some path ∧ path.job = job := by
  obtain ⟨attempt, hatt⟩ := h.attempt jobId job hjob
  obtain ⟨build, hbuild⟩ := h.build _ attempt hatt
  exact ⟨⟨job, attempt, build⟩, locate_eq_some.mpr ⟨hjob, hatt, hbuild⟩, rfl⟩

theorem Linked.ownerOf (h : Linked s) {leaseId : LeaseId}
    (hlease : s.leases.find? leaseId = some lease) : ∃ agentId, s.ownerOf lease = some agentId := by
  obtain ⟨registration, hreg⟩ := h.registration leaseId lease hlease
  exact ⟨registration.agentId, by rw [StoreState.ownerOf, hreg]; rfl⟩

/-! ## Sequences of writes -/

/-- An ended Job keeps its state whatever the store does. -/
theorem Writes.stateOf_terminal (h : Writes rules s s') {jobId : JobId}
    (hstate : s.stateOf jobId = some state) (hterm : state.isTerminal = true) :
    s'.stateOf jobId = some state := by
  refine writes_keep (P := fun s => s.stateOf jobId = some state) (fun s s' hs hwrite => ?_) h
    hstate
  obtain ⟨job, hjob, rfl⟩ := stateOf_eq_some.mp hs
  obtain ⟨job', hjob', hadvs⟩ := hwrite.evolution.jobs.grows _ _ hjob
  exact stateOf_eq_some.mpr ⟨job', hjob', hadvs.2.terminal hterm⟩

/-- Over any run no Build, Attempt, Job or Lease disappears, a Job that ended keeps its
    state, a Lease that ended its row, and completions and cancellations never change. -/
theorem run_keeps_rows (rules : CoreRules) (s : StoreState) (later : List Transaction) :
    let s' := s.run rules later
    s.builds.Grows BuildRow.Advances s'.builds ∧ s.attempts.Grows AttemptRow.Advances s'.attempts ∧
      s.jobs.Grows JobRow.Advances s'.jobs ∧ s.leases.Grows LeaseRow.Advances s'.leases ∧
      s.jobCompletions.Grows Eq s'.jobCompletions ∧
      s.buildCancellations.Grows Eq s'.buildCancellations := by
  have hwrites := run_writes rules s later
  generalize s.run rules later = s' at hwrites
  induction hwrites with
  | refl =>
    exact ⟨.refl BuildRow.advances_refl _, .refl AttemptRow.advances_refl _,
      .refl JobRow.advances_refl _, .refl advances_refl _, .refl Eq.refl _, .refl Eq.refl _⟩
  | tail _ hwrite ih =>
    obtain ⟨hblds, hatts, hjobs, hlses, hcomps, hcancellations⟩ := ih
    have he := hwrite.evolution
    refine ⟨hblds.trans (fun _ _ _ h h' => ?_) he.builds.grows,
      hatts.trans (fun _ _ _ h h' => ?_) he.attempts.grows,
      hjobs.trans JobRow.advances_trans he.jobs.grows,
      hlses.trans (fun _ _ _ h h' => ⟨?_, fun hended => ?_⟩) he.leases.grows,
      hcomps.trans (fun _ _ _ => Eq.trans) he.completions.grows,
      hcancellations.trans (fun _ _ _ => Eq.trans) he.cancellations.grows⟩
    · rw [BuildRow.Advances] at h h' ⊢
      rw [h', h]
    · rw [AttemptRow.Advances] at h h' ⊢
      rw [h', h]
    · rw [h'.1, h.1]
    · have hsame := h.2 hended
      rw [h'.2 (hsame ▸ hended), hsame]

end StoreState

/-! # Queue scopes

The Project and the Build Configuration a queue entry names are those of the
Build of its Job (`Writes.queueScoped`).  They are copied when the Job is
queued, and a Build never changes them.
-/

namespace StoreState

variable {rules : CoreRules} {timed grants : Bool} {s s' : StoreState}

def JobPath.scope (path : JobPath) : ProjectId × ConfigurationVersion :=
  (path.build.projectId, path.build.configuration)

/-- A located Job keeps its scope. -/
theorem Evolution.locate (h : Evolution s s') {jobId : JobId} {path : JobPath}
    (hpath : s.locate jobId = some path) :
    ∃ path', s'.locate jobId = some path' ∧ path'.scope = path.scope := by
  obtain ⟨hjob, hatt, hbuild⟩ := locate_eq_some.mp hpath
  obtain ⟨job, hjob', hfol, -⟩ := h.jobs.grows _ _ hjob
  obtain ⟨attempt, hatt', hattemptAdvances⟩ := h.attempts.grows _ _ hatt
  obtain ⟨build, hbuild', hbuildAdvances⟩ := h.builds.grows _ _ hbuild
  refine ⟨⟨job, attempt, build⟩, locate_eq_some.mpr ⟨hjob', ?_, ?_⟩, ?_⟩
  · rw [hfol.attemptId]
    exact hatt'
  · rw [hattemptAdvances.buildId]
    exact hbuild'
  · have hsame : build =
        { path.build with state := build.state, logsVisible := build.logsVisible } := hbuildAdvances
    rw [JobPath.scope, JobPath.scope, hsame]

/-- The entry names the scope of its Job. -/
def EntryScoped (s : StoreState) (entry : ReadyQueueEntry) : Prop :=
  ∃ path, s.locate entry.jobId = some path ∧ (entry.projectId, entry.configuration) = path.scope

theorem EntryScoped.evolution {entry : ReadyQueueEntry} (h : EntryScoped s entry)
    (hevol : Evolution s s') : EntryScoped s' entry := by
  obtain ⟨path, hpath, hscope⟩ := h
  obtain ⟨path', hpath', hsame⟩ := hevol.locate hpath
  exact ⟨path', hpath', hscope.trans hsame.symm⟩

/-- What is added to the queue is scoped where the tables of Jobs stay. -/
theorem enqueue_scoped {ids : List JobId} (h : s.enqueue ids = .ok s') :
    ∀ entry ∈ s'.readyQueue.rows, entry ∈ s.readyQueue.rows ∨ EntryScoped s' entry := by
  obtain ⟨readyQueue, hins, h⟩ := bind_eq_ok.mp h
  rw [guard_eq_ok] at h
  cases h.2
  intro entry hentry
  obtain hnew | hold := (mem_insertAll hins).mp hentry
  · right
    unfold queueEntries at hnew
    obtain ⟨position, hpos, rfl⟩ := mem_mapIdx.mp hnew
    have hmem := getElem_mem hpos
    obtain ⟨row, -, hrow⟩ := mem_filterMap.mp hmem
    exact ⟨_, by rw [JobPath.entry, locate_job_id hrow]; exact hrow, rfl⟩
  · exact .inl hold

theorem enqueueReady_scoped {ids : List JobId} (h : s.enqueueReady ids = .ok s') :
    ∀ entry ∈ s'.readyQueue.rows, entry ∈ s.readyQueue.rows ∨ EntryScoped s' entry := by
  unfold enqueueReady at h
  split at h
  · cases h
    exact fun _ hentry => .inl hentry
  · exact enqueue_scoped h

theorem materializeAttempt_scoped {attempt : AttemptRow} {jobs : List MaterializedJob}
    {createdAt : Timestamp} (h : s.materializeAttempt rules attempt jobs createdAt = .ok s') :
    ∀ entry ∈ s'.readyQueue.rows, entry ∈ s.readyQueue.rows ∨ EntryScoped s' entry := by
  unfold materializeAttempt at h
  obtain ⟨s₁, hatt, h⟩ := bind_eq_ok.mp h
  obtain ⟨s₂, hjobs, h⟩ := bind_eq_ok.mp h
  obtain ⟨s₃, hsign, henq⟩ := bind_eq_ok.mp h
  obtain ⟨table, htable, hjobs⟩ := bind_eq_ok.mp hjobs
  cases hjobs
  have hqueue : s₃.readyQueue = s.readyQueue := by
    rw [(signReadyJobs_eq_ok hsign).1, (insertAttempt_eq_ok hatt).1]
  intro entry hentry
  have hadded := enqueue_scoped henq entry hentry
  rw [hqueue] at hadded
  exact hadded

theorem unblock_scoped {ready skipped : List JobId} {issuedAt : Timestamp}
    (h : unblock rules s ready skipped issuedAt = .ok s') :
    ∀ entry ∈ s'.readyQueue.rows, entry ∈ s.readyQueue.rows ∨ EntryScoped s' entry := by
  obtain ⟨s₁, h₁, h⟩ := bind_eq_ok.mp h
  obtain ⟨s₂, h₂, h⟩ := bind_eq_ok.mp h
  obtain ⟨s₃, h₃, h⟩ := bind_eq_ok.mp h
  have hqueue : s₃.readyQueue = s.readyQueue := by
    rw [(signReadyJobs_eq_ok h₃).1, (updateBlockedJobs_eq_ok h₂).1, (updateBlockedJobs_eq_ok h₁).1]
  intro entry hentry
  have hadded := enqueueReady_scoped h entry hentry
  rw [hqueue] at hadded
  exact hadded

/-- A write records answers, appends events of one Job, or leaves both as they are. -/
theorem WriteIn.logged (h : WriteIn rules timed grants s s') :
    (s'.jobEvents = s.jobEvents ∧ s'.idempotency = s.idempotency ∧
      (timed = false → s'.workerClaims = s.workerClaims)) ∨
    (∃ records, s' = { s with idempotency := records } ∧
      (timed = false → records.renewLease = s.idempotency.renewLease) ∧
      ∀ record ∈ records.appendJobEvents, record ∈ s.idempotency.appendJobEvents ∨
        ∃ lease, s.leases.find? record.key.1 = some lease ∧
          record.key.2.2 ≤ s.durableThrough lease.jobId) ∨
    ∃ jobId leaseId events, s' = s.insertEvents jobId leaseId events ∧
      events.map (·.sequence) = List.range' (s.durableThrough jobId + 1) events.length ∧
      (∀ event ∈ events, event.sequence < 2 ^ 63) ∧
      ∃ lease, s.leases.find? leaseId = some lease ∧ lease.jobId = jobId ∧
        lease.state.isCurrent = true := by
  cases h with
  | record hgrows huntim happended => exact .inr (.inl ⟨_, rfl, huntim, happended⟩)
  | events hnumd hbound hhold => exact .inr (.inr ⟨_, _, _, rfl, hnumd, hbound, hhold⟩)
  | administer | agents | pools | hideLogs | begin | logs | aggregate | finish | redirect =>
    exact .inl ⟨rfl, rfl, fun _ => rfl⟩
  | workerClaims htimed => exact .inl ⟨rfl, rfl, fun huntim => by simp [htimed] at huntim⟩
  | accept hbuild hins hatt hstate hgraph hmat =>
    left
    rw [(materializeAttempt_eq_ok hmat).1, (insertBuild_eq_ok hins).1]
    exact ⟨rfl, rfl, fun _ => rfl⟩
  | retry hbuild hfailed hsrc hlost hnum hstate hgraph hmat =>
    left
    rw [(materializeAttempt_eq_ok hmat).1]
    exact ⟨rfl, rfl, fun _ => rfl⟩
  | take hgrant hjob hready hreg hfree hact htake =>
    left
    rw [(takeJob_eq_ok htake).1]
    exact ⟨rfl, rfl, fun _ => rfl⟩
  | renew htimed hlease hcur hrenew =>
    left
    rw [(renewDeadline_eq_ok hrenew).1]
    exact ⟨rfl, rfl, fun _ => rfl⟩
  | requeue htimed hlease hcur hpath hstate henq =>
    left
    rw [(enqueue_eq_ok henq).1]
    exact ⟨rfl, rfl, fun _ => rfl⟩
  | unblock hunblk =>
    left
    rw [(unblock_eq_ok hunblk).1]
    exact ⟨rfl, rfl, fun _ => rfl⟩
  | complete hjob hterm hlease hsame hins =>
    left
    rw [(insertCompletion_eq_ok hins).1]
    exact ⟨rfl, rfl, fun _ => rfl⟩
  | cancel hbuild hatt hact hcanc hcing hterm hnfail hins =>
    left
    rw [(insertCancellation_eq_ok hins).1, aggregate_eq, propagate_eq]
    exact ⟨rfl, rfl, fun _ => rfl⟩

/-- A write adds scoped entries only. -/
theorem WriteIn.queueRows (h : WriteIn rules timed grants s s') :
    ∀ entry ∈ s'.readyQueue.rows, entry ∈ s.readyQueue.rows ∨ EntryScoped s' entry := by
  cases h with
  | record | administer | agents | pools | hideLogs | begin | events | logs | aggregate | finish
  | redirect | workerClaims => exact fun _ hentry => .inl hentry
  | accept hbuild hins hatt hstate hgraph hmat =>
    have hadded := materializeAttempt_scoped hmat
    rw [(insertBuild_eq_ok hins).1] at hadded
    exact hadded
  | @retry materialized build attempt source jobs createdAt hbuild hfailed hsrc hlost hnum
      hstate hgraph hmat =>
    intro entry hentry
    obtain hold | hnew := materializeAttempt_scoped hmat entry hentry
    · exact .inl hold
    · -- the state of the Build is set after its Jobs were queued
      refine .inr (hnew.evolution { builds := ?_ })
      exact setBuildState_evolves _ _
  | @take _ lease job registration hgrant hjob hready hreg hfree hact htake =>
    intro entry hentry
    obtain ⟨s₁, hins, h⟩ := bind_eq_ok.mp htake
    cases h
    have hqueue : s₁.readyQueue.rows = (s.dequeue [lease.jobId]).readyQueue.rows := by
      rw [(insertLease_eq_ok hins).1]
    have hmem : entry ∈ s₁.readyQueue.rows := hentry
    rw [hqueue] at hmem
    exact .inl (mem_deleteWhere.mp hmem).1
  | renew htimed hlease hcur hrenew =>
    rw [(renewDeadline_eq_ok hrenew).1]
    exact fun _ hentry => .inl hentry
  | @requeue _ lease path requeues htimed hlease hcur hpath hstate henq =>
    exact enqueue_scoped (s := s.releaseJob lease requeues) henq
  | unblock hunblk => exact unblock_scoped hunblk
  | complete hjob hterm hlease hsame hins =>
    rw [(insertCompletion_eq_ok hins).1]
    exact fun _ hentry => .inl hentry
  | cancel hbuild hatt hact hcanc hcing hterm hnfail hins =>
    intro entry hentry
    rw [(insertCancellation_eq_ok hins).1, aggregate_eq, propagate_eq] at hentry
    exact .inl (mem_deleteWhere.mp hentry).1

/-- Every entry of the queue names the scope of its Job. -/
def QueueScoped (s : StoreState) : Prop := ∀ entry ∈ s.readyQueue.rows, EntryScoped s entry

theorem QueueScoped.write (h : QueueScoped s) (hwrite : Write rules s s') : QueueScoped s' := by
  intro entry hentry
  obtain hold | hnew := hwrite.queueRows entry hentry
  · exact (h entry hold).evolution hwrite.evolution
  · exact hnew

theorem Writes.queueScoped (h : Writes rules .initial s) : QueueScoped s :=
  writes_keep (fun _ _ hs hwrite => hs.write hwrite) h fun _ hentry => nomatch hentry

end StoreState

end OctaCity.Store
