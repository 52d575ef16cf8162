/-
  OctaCity.Store.Coherence

  What the store knows about Attempts and cancellations.  The graph of every
  Attempt stays valid, only the newest Attempt of a Build is open, an Attempt
  ends with its Jobs, and a recorded cancellation has reached every Job of its
  Build and every Lease that still runs one (`Reachable.coherent`).
-/
import OctaCity.Store.Ownership

namespace OctaCity.Store

open Domain Job Lib List Orchestrator Pipeline Table

/-! ## Graphs of rows -/

/-- The rows are the Jobs of one valid dependency graph. -/
def ValidRows (rows : List JobRow) : Prop :=
  ∃ nodes, rows.mapM JobRow.node = .ok nodes ∧ validateJobGraph nodes = .ok ()

variable {rows : List JobRow}

theorem ValidRows.ne_nil (h : ValidRows rows) : rows ≠ [] := by
  obtain ⟨nodes, hnodes, hvalid⟩ := h
  rintro rfl
  rw [mapM_eq_ok, forall₂_nil_left_iff] at hnodes
  exact validateJobGraph_ne_nil hvalid hnodes

theorem ValidRows.perm {rows' : List JobRow} (h : ValidRows rows) (hp : rows'.Perm rows) :
    ValidRows rows' := by
  obtain ⟨nodes, hnodes, hvalid⟩ := h
  obtain ⟨nodes', hnodes', hperm⟩ := perm_comp_forall₂ hp (mapM_eq_ok.mp hnodes)
  exact ⟨nodes', mapM_eq_ok.mpr hnodes', validateJobGraph_perm hperm hvalid⟩

theorem JobRow.Follows.node {row row' : JobRow} (h : row.Follows row') {node : JobGraphNode}
    (hnode : row.node = .ok node) : row'.node = .ok { node with state := row'.state } := by
  unfold JobRow.node JobGraphNode.new at hnode ⊢
  rw [h.id, h.dependencies, h.dependencyPolicy]
  simp only at hnode ⊢
  split at hnode
  · cases hnode
  · rename_i hself
    split at hnode
    · rename_i hdist
      cases hnode
      rw [dif_neg hself, dif_pos hdist]
    · cases hnode

/-- A graph stays valid while its Jobs advance. -/
theorem ValidRows.advance {f : JobRow → JobRow} (h : ValidRows rows)
    (hf : ∀ row ∈ rows, row.Advances (f row)) : ValidRows (rows.map f) := by
  obtain ⟨nodes, hnodes, hvalid⟩ := h
  rw [mapM_eq_ok] at hnodes
  have hmoved : ∃ nodes', List.Forall₂ (fun row node => row.node = .ok node) (rows.map f) nodes' ∧
      List.Forall₂ JobGraphNode.MovesTo nodes nodes' := by
    clear hvalid
    induction hnodes with
    | nil => exact ⟨[], .nil, .nil⟩
    | @cons row node rest rest' hnode _ ih =>
      obtain ⟨nodes', hrows', hnodes'⟩ := ih fun row hrow => hf row (mem_cons_of_mem _ hrow)
      have hadvs := hf row (mem_cons_self ..)
      refine ⟨_, .cons (hadvs.1.node hnode) hrows', .cons ⟨rfl, fun hblk => ?_⟩ hnodes'⟩
      rw [(StoreState.node_eq_ok hnode).2]
      exact hadvs.2.blocked hblk
  obtain ⟨nodes', hrows', hnodes'⟩ := hmoved
  exact ⟨nodes', mapM_eq_ok.mpr hrows', validateJobGraph_moves hnodes' hvalid⟩

/-- The only current Leases that take no directive are told to cancel already. -/
theorem LeaseState.eq_cancellationRequested {state : LeaseState} (hcur : state.isCurrent = true)
    (htakes : state.takesDirective = false) : state = .cancellationRequested := by
  cases state with
  | cancellationRequested => rfl
  | active | drainRequested => cases htakes
  | completed | expired => cases hcur

namespace StoreState

variable {rules : CoreRules} {s s' : StoreState}

theorem attemptJobs_nodup (attemptId : AttemptId) : ((s.attemptJobs attemptId).map (·.id)).Nodup :=
  s.jobs.keys_nodup.sublist (filter_sublist.map _)

variable {attempt : AttemptRow} {jobs : List MaterializedJob} {createdAt : Timestamp}
  {jobId : JobId} {job : JobRow} {lease : LeaseRow} {build : BuildRow}

variable {attemptId : AttemptId} {leaseState : LeaseState} {attemptState : AttemptState}
  {buildState : BuildState} {cancelled cancelling : List JobId} {state : JobState}

theorem Evolution.attemptJobs (he : Evolution s s')
    (hatt : s.attempts.find? attemptId = some attempt) : ∃ f : JobRow → JobRow,
      (s'.attemptJobs attemptId).Perm ((s.attemptJobs attemptId).map f) ∧
        ∀ row ∈ s.attemptJobs attemptId, row.Advances (f row) := by
  let f := fun row : JobRow => (s'.jobs.find? row.id).getD row
  have hf : ∀ row ∈ s.attemptJobs attemptId,
      s'.jobs.find? row.id = some (f row) ∧ row.Advances (f row) := by
    intro row hrow
    obtain ⟨row', hrow', hadvs⟩ :=
      he.jobs.grows _ _ (Table.find?_of_mem _ (mem_attemptJobs.mp hrow).1)
    have heq : f row = row' := by simp only [f, hrow', Option.getD_some]
    rw [heq]
    exact ⟨hrow', hadvs⟩
  refine ⟨f, (perm_ext_iff_of_nodup ?_ ?_).mpr fun row' => ?_, fun row hrow => (hf row hrow).2⟩
  · exact List.Nodup.of_map _ (attemptJobs_nodup attemptId)
  · have hids : ((s.attemptJobs attemptId).map f).map (·.id) =
        (s.attemptJobs attemptId).map (·.id) := by
      rw [map_map]
      exact map_congr_left fun row hrow => (hf row hrow).2.1.id
    refine List.Nodup.of_map (·.id) ?_
    rw [hids]
    exact attemptJobs_nodup attemptId
  · rw [mem_map]
    constructor
    · intro hrow'
      obtain ⟨hmem, hid⟩ := mem_attemptJobs.mp hrow'
      obtain ⟨row, hrow, hadvs⟩ | ⟨-, -, hfresh⟩ :=
        he.jobs.origin _ _ (Table.find?_of_mem _ hmem)
      · have hjob : row ∈ s.attemptJobs attemptId :=
          mem_attemptJobs.mpr ⟨mem_of_find? hrow, by rw [← hadvs.1.attemptId, hid]⟩
        refine ⟨row, hjob, ?_⟩
        have hfound := (hf row hjob).1
        rw [← hadvs.1.id, Table.find?_of_mem _ hmem] at hfound
        exact (Option.some.inj hfound).symm
      · rw [hid, hatt] at hfresh
        cases hfresh
    · rintro ⟨row, hrow, rfl⟩
      obtain ⟨hfound, hadvs⟩ := hf row hrow
      refine mem_attemptJobs.mpr ⟨mem_of_find? hfound, ?_⟩
      rw [hadvs.1.attemptId]
      exact (mem_attemptJobs.mp hrow).2

/-- The Jobs of a new Attempt are the ones it was materialized with. -/
theorem materializeAttempt_jobs (hlink : Linked s)
    (h : s.materializeAttempt rules attempt jobs createdAt = .ok s') : ∃ f : JobRow → JobRow,
      (s'.attemptJobs attempt.id).Perm ((jobs.map (·.row attempt.id)).map f) ∧
        ∀ row, row.Follows (f row) ∧ (f row).state = row.state := by
  obtain ⟨-, hfresh, -, -, ⟨table, hins, hedits⟩, -⟩ := materializeAttempt_eq_ok h
  obtain ⟨f, hjobs, hf⟩ := Edits.attemptJobs (s := { s with jobs := table }) hedits attempt.id
  refine ⟨f, ?_, hf⟩
  rw [hjobs]
  have hold : s.jobs.rows.filter (fun job => job.attemptId = attempt.id) = [] := by
    rw [filter_eq_nil_iff]
    intro row hrow hid
    obtain ⟨found, hfound⟩ := hlink.attempt _ row (Table.find?_of_mem _ hrow)
    rw [of_decide_eq_true hid, hfresh] at hfound
    cases hfound
  have hnew : (jobs.map (·.row attempt.id)).filter (fun job => job.attemptId = attempt.id) =
      jobs.map (·.row attempt.id) := by
    rw [filter_eq_self]
    intro row hrow
    obtain ⟨job, -, rfl⟩ := mem_map.mp hrow
    exact decide_eq_true rfl
  have hperm := (insertAll_eq_ok hins).filter fun job => job.attemptId = attempt.id
  rw [filter_append, hold, hnew, append_nil] at hperm
  exact hperm.map f

theorem materializeAttempt_valid (hlink : Linked s) (hgraph : materializedGraph jobs = .ok ())
    (h : s.materializeAttempt rules attempt jobs createdAt = .ok s') :
    ValidRows (s'.attemptJobs attempt.id) := by
  obtain ⟨f, hperm, hf⟩ := materializeAttempt_jobs hlink h
  obtain ⟨nodes, hnodes, hvalid⟩ := bind_eq_ok.mp hgraph
  have hrows : ValidRows (jobs.map (·.row attempt.id)) := by
    refine ⟨nodes, ?_, hvalid⟩
    rw [mapM_eq_ok, forall₂_map_left_iff]
    exact mapM_eq_ok.mp hnodes
  refine (hrows.advance fun row _ => ⟨(hf row).1, ?_⟩).perm hperm
  rw [(hf row).2]
  exact JobState.advances_refl _

/-! ## Attempts, Builds and cancellations -/

/-- The Build a Job belongs to. -/
def buildOf (s : StoreState) (jobId : JobId) : Option BuildId := do
  let job ← s.jobs.find? jobId
  let attempt ← s.attempts.find? job.attemptId
  some attempt.buildId

theorem buildOf_eq_some {buildId : BuildId} :
    s.buildOf jobId = some buildId ↔ ∃ job attempt, s.jobs.find? jobId = some job ∧
      s.attempts.find? job.attemptId = some attempt ∧ attempt.buildId = buildId := by
  unfold buildOf
  simp only [Option.bind_eq_bind, Option.bind_eq_some_iff, Option.some.injEq]
  constructor
  · rintro ⟨job, hjob, attempt, hatt, hbuild⟩
    exact ⟨job, attempt, hjob, hatt, hbuild⟩
  · rintro ⟨job, attempt, hjob, hatt, hbuild⟩
    exact ⟨job, hjob, attempt, hatt, hbuild⟩

/-- A current Lease that runs a cancelling Job is told to cancel it. -/
def Directed (s : StoreState) (lease : LeaseRow) : Prop :=
  lease.state.isCurrent = true → s.stateOf lease.jobId = some .cancelling →
    lease.state = .cancellationRequested

structure Coherent (s : StoreState) : Prop where
  graph : ∀ id attempt, s.attempts.find? id = some attempt → ValidRows (s.attemptJobs id)
  ended : ∀ id attempt, s.attempts.find? id = some attempt → attempt.state.isTerminal = true →
    ∀ job ∈ s.attemptJobs id, job.state.isTerminal = true
  numbered : ∀ attempt ∈ s.attempts.rows, ∀ other ∈ s.attempts.rows,
    attempt.buildId = other.buildId → attempt.attemptNumber = other.attemptNumber → attempt = other
  newest : ∀ attempt ∈ s.attempts.rows, attempt.state.isTerminal = false →
    ∀ other ∈ s.attempts.rows, other.buildId = attempt.buildId →
      other.attemptNumber ≤ attempt.attemptNumber
  notFailed : ∀ id, s.cancellationRequested id = true →
    ∃ build, s.builds.find? id = some build ∧ build.state ≠ .failed
  targeted : ∀ id buildId state, s.buildOf id = some buildId →
    s.cancellationRequested buildId = true → s.stateOf id = some state →
      isUntargeted state = false
  requested : ∀ id buildId, s.buildOf id = some buildId → s.stateOf id = some .cancelling →
    s.cancellationRequested buildId = true
  directed : ∀ id lease, s.leases.find? id = some lease → s.Directed lease

theorem coherent_initial : Coherent .initial where
  graph _ _ h := nomatch h
  ended _ _ h := nomatch h
  numbered _ h := nomatch h
  newest _ h := nomatch h
  notFailed _ h := nomatch h
  targeted _ _ _ h := nomatch h
  requested _ _ h := nomatch h
  directed _ _ h := nomatch h

theorem Evolution.buildOf (he : Evolution s s') (hlink : Linked s)
    (hjob : s.jobs.find? jobId = some job) : s'.buildOf jobId = s.buildOf jobId := by
  obtain ⟨attempt, hatt⟩ := hlink.attempt jobId job hjob
  obtain ⟨job', hjob', hadvs⟩ := he.jobs.grows _ _ hjob
  obtain ⟨attempt', hatt', hbuild⟩ := he.attempts.grows _ _ hatt
  rw [buildOf_eq_some.mpr ⟨job, attempt, hjob, hatt, rfl⟩, buildOf_eq_some]
  rw [← hadvs.1.attemptId] at hatt'
  exact ⟨job', attempt', hjob', hatt', hbuild.buildId⟩

theorem Evolution.stateOf (he : Evolution s s') {state' : JobState}
    (hstate : s'.stateOf jobId = some state')
    (hjob : s.jobs.find? jobId = some job) : JobState.Advances job.state state' := by
  obtain ⟨job', hjob', hadvs⟩ := he.jobs.grows _ _ hjob
  obtain ⟨found, hfound, rfl⟩ := stateOf_eq_some.mp hstate
  rw [hjob'] at hfound
  cases hfound
  exact hadvs.2

/-- A write that leaves Attempts, Build states and cancellations alone and sends
    no Job into cancellation. -/
structure Quiet (s s' : StoreState) : Prop where
  attempts : s'.attempts = s.attempts := by rfl
  builds : ∀ id build, s.builds.find? id = some build →
    ∃ build', s'.builds.find? id = some build' ∧ build'.state = build.state := by
      exact fun _ build h => ⟨build, h, rfl⟩
  cancellations : s'.buildCancellations = s.buildCancellations := by rfl
  requested : ∀ id, s'.stateOf id = some .cancelling → s.stateOf id = some .cancelling := by
    exact fun _ h => h
  directed : (∀ id lease, s.leases.find? id = some lease → s.Directed lease) →
    ∀ id lease, s'.leases.find? id = some lease → s'.Directed lease := by
      exact fun h => h

theorem Coherent.quiet (h : Coherent s) (hlink : Linked s) (he : Evolution s s')
    (hquiet : Quiet s s') : Coherent s' := by
  have hsame : ∀ buildId, s'.cancellationRequested buildId = s.cancellationRequested buildId := by
    intro buildId
    rw [cancellationRequested, cancellationRequested, hquiet.cancellations]
  -- without a new Attempt there is no new Job
  have hold : ∀ id buildId, s'.buildOf id = some buildId → ∃ job, s.jobs.find? id = some job := by
    intro id buildId hbuild
    obtain ⟨job', attempt, hjob', hatt, -⟩ := buildOf_eq_some.mp hbuild
    obtain ⟨job, hjob, -⟩ | ⟨-, -, hfresh⟩ := he.jobs.origin _ _ hjob'
    · exact ⟨job, hjob⟩
    · rw [← hquiet.attempts, hatt] at hfresh
      cases hfresh
  refine ⟨?_, ?_, ?_, ?_, ?_, ?_, ?_, hquiet.directed h.directed⟩
  · intro id attempt hatt
    rw [hquiet.attempts] at hatt
    obtain ⟨f, hperm, hf⟩ := he.attemptJobs hatt
    exact ((h.graph id attempt hatt).advance hf).perm hperm
  · intro id attempt hatt hterm job hjob
    rw [hquiet.attempts] at hatt
    obtain ⟨f, hperm, hf⟩ := he.attemptJobs hatt
    obtain ⟨row, hrow, rfl⟩ := mem_map.mp (hperm.mem_iff.mp hjob)
    have hended := h.ended id attempt hatt hterm row hrow
    rw [(hf row hrow).2.terminal hended]
    exact hended
  · rw [hquiet.attempts]
    exact h.numbered
  · rw [hquiet.attempts]
    exact h.newest
  · intro id hcanc
    obtain ⟨build, hbuild, hstate⟩ := h.notFailed id (by rw [← hsame]; exact hcanc)
    obtain ⟨build', hbuild', heq⟩ := hquiet.builds id build hbuild
    exact ⟨build', hbuild', by rw [heq]; exact hstate⟩
  · intro id buildId state hbuild hcanc hstate
    obtain ⟨job, hjob⟩ := hold id buildId hbuild
    rw [he.buildOf hlink hjob] at hbuild
    rw [hsame] at hcanc
    exact (he.stateOf hstate hjob).targeted
      (h.targeted id buildId job.state hbuild hcanc (stateOf_eq_some.mpr ⟨job, hjob, rfl⟩))
  · intro id buildId hbuild hstate
    obtain ⟨job, hjob⟩ := hold id buildId hbuild
    rw [he.buildOf hlink hjob] at hbuild
    rw [hsame]
    exact h.requested id buildId hbuild (hquiet.requested id hstate)

theorem Edits.requested {next : JobId → JobState → JobState} (h : Edits next s.jobs s'.jobs)
    (hnext : ∀ id state, next id state = .cancelling → state = .cancelling) (id : JobId)
    (hstate : s'.stateOf id = some .cancelling) : s.stateOf id = some .cancelling := by
  rw [h.stateOf, Option.map_eq_some_iff] at hstate
  obtain ⟨state, hbef, hafter⟩ := hstate
  rw [hbef, hnext id state hafter]

/-- Leases stay directed when no Job turns to cancelling and no Lease turns away. -/
theorem directed_of_find? {f : LeaseRow → LeaseRow}
    (hlses : ∀ id, s'.leases.find? id = (s.leases.find? id).map f)
    (hreqst : ∀ id, s'.stateOf id = some .cancelling → s.stateOf id = some .cancelling)
    (hf : ∀ row, (f row).jobId = row.jobId ∧
      ((f row).state.isCurrent = true → row.state.isCurrent = true ∧
        (row.state = .cancellationRequested → (f row).state = .cancellationRequested)))
    (h : ∀ id lease, s.leases.find? id = some lease → s.Directed lease) :
    ∀ id lease, s'.leases.find? id = some lease → s'.Directed lease := by
  intro id lease hlease hcur hstate
  rw [hlses, Option.map_eq_some_iff] at hlease
  obtain ⟨row, hrow, rfl⟩ := hlease
  obtain ⟨hjob, hmove⟩ := hf row
  obtain ⟨hbef, hkeep⟩ := hmove hcur
  rw [hjob] at hstate
  exact hkeep (h id row hrow hbef (hreqst _ hstate))

/-! ## Quiet writes -/

theorem hideLogs_quiet (buildId : BuildId) : Quiet s (s.hideLogs buildId) where
  attempts := rfl
  builds id build hbuild := by
    refine ⟨if build.id = buildId then build.withoutLogs else build, ?_, ?_⟩
    · have hfind := Table.find?_updateWhere s.builds (fun row => row.id = buildId)
        BuildRow.withoutLogs BuildRow.withoutLogs_id id
      rw [hbuild] at hfind
      exact hfind.trans (by simp)
    · split <;> rfl
  cancellations := rfl
  requested _ h := h
  directed h := h

theorem take_quiet (htake : s.takeJob lease = .ok s') : Quiet s s' := by
  obtain ⟨hother, hedits, -, hlses, hfresh, -⟩ := takeJob_eq_ok htake
  have hreqst : ∀ id, s'.stateOf id = some .cancelling → s.stateOf id = some .cancelling := by
    refine hedits.requested fun id state hnext => ?_
    split at hnext
    · cases hnext
    · exact hnext
  refine { attempts := by rw [hother]
           builds := fun _ build hbuild => ⟨build, by rw [hother]; exact hbuild, rfl⟩
           cancellations := by rw [hother]
           requested := hreqst
           directed := fun h id found hfound hcur hstate => ?_ }
  rw [hlses] at hfound
  split at hfound
  · cases hfound
    rw [hedits.stateOf, Option.map_eq_some_iff] at hstate
    obtain ⟨state, -, hnext⟩ := hstate
    rw [if_pos rfl] at hnext
    cases hnext
  · exact h id found hfound hcur (hreqst _ hstate)

theorem renew_quiet {leaseId : LeaseId} {expiresAt : Timestamp}
    (hrenew : s.renewDeadline leaseId expiresAt = .ok s') : Quiet s s' := by
  obtain ⟨hother, hlses⟩ := renewDeadline_eq_ok hrenew
  have hreqst : ∀ id, s'.stateOf id = some .cancelling → s.stateOf id = some .cancelling := by
    intro id hstate
    rw [hother] at hstate
    exact hstate
  refine { attempts := by rw [hother]
           builds := fun _ build hbuild => ⟨build, by rw [hother]; exact hbuild, rfl⟩
           cancellations := by rw [hother]
           requested := hreqst
           directed := directed_of_find? hlses hreqst fun row => ?_ }
  split
  · exact ⟨rfl, fun hcur => ⟨hcur, fun hstate => hstate⟩⟩
  · exact ⟨rfl, fun hcur => ⟨hcur, fun hstate => hstate⟩⟩

theorem begin_quiet (jobId : JobId) :
    Quiet s (s.updateJobs (fun row => row.id = jobId ∧ row.state = .leased) .running) := by
  have hreqst := (updateJobs_edits (s := s) (fun row => row.id = jobId ∧ row.state = .leased)
    .running (fun id state => id = jobId ∧ state = .leased) (by simp)).requested (by
      intro id state hnext
      split at hnext
      · cases hnext
      · exact hnext)
  exact {
    attempts := rfl
    builds := fun _ build hbuild => ⟨build, hbuild, rfl⟩
    cancellations := rfl
    requested := hreqst
    directed := fun h id lease hlease hcur hstate =>
      h id lease hlease hcur (hreqst _ hstate) }

theorem closeLease_directed (hended : leaseState.isCurrent = false) (row : LeaseRow) :
    (if row.id = lease.id then row.withState leaseState else row).jobId = row.jobId ∧
      ((if row.id = lease.id then row.withState leaseState else row).state.isCurrent = true →
        row.state.isCurrent = true ∧ (row.state = .cancellationRequested →
          (if row.id = lease.id then row.withState leaseState else row).state =
            .cancellationRequested)) := by
  split
  · refine ⟨rfl, fun hcur => ?_⟩
    rw [LeaseRow.withState, hended] at hcur
    cases hcur
  · exact ⟨rfl, fun hcur => ⟨hcur, fun hstate => hstate⟩⟩

theorem finish_quiet {terminal : JobState}
    (hended : leaseState.isCurrent = false) (hterm : terminal.isTerminal = true) :
    Quiet s (s.finishJob lease leaseState terminal) := by
  have hreqst := (finishJob_edits (s := s) lease leaseState terminal).requested (by
    intro id state hnext
    split at hnext
    · rw [hnext] at hterm
      cases hterm
    · exact hnext)
  exact {
    attempts := rfl
    builds := fun _ build hbuild => ⟨build, hbuild, rfl⟩
    cancellations := rfl
    requested := hreqst
    directed := directed_of_find? (closeLease_find? lease.id leaseState) hreqst
      (closeLease_directed hended) }

theorem requeue_quiet {requeues : Nat}
    (henq : (s.releaseJob lease requeues).enqueue [lease.jobId] = .ok s') : Quiet s s' := by
  obtain ⟨hother, -, -⟩ := enqueue_eq_ok henq
  have hedits : Edits (fun id state => if id = lease.jobId then .ready else state) s.jobs s'.jobs := by
    rw [hother]
    exact releaseJob_edits lease requeues
  have hreqst := hedits.requested (by
    intro id state hnext
    split at hnext
    · cases hnext
    · exact hnext)
  have hlses : ∀ id, s'.leases.find? id = (s.leases.find? id).map fun row =>
      if row.id = lease.id then row.withState .expired else row := by
    intro id
    rw [hother]
    exact closeLease_find? lease.id .expired id
  exact {
    attempts := by rw [hother]; rfl
    builds := fun _ build hbuild => ⟨build, by rw [hother]; exact hbuild, rfl⟩
    cancellations := by rw [hother]; rfl
    requested := hreqst
    directed := directed_of_find? hlses hreqst (closeLease_directed rfl) }

theorem unblock_quiet {ready skipped : List JobId} {issuedAt : Timestamp}
    (hunblk : unblock rules s ready skipped issuedAt = .ok s') : Quiet s s' := by
  obtain ⟨hother, hedits, -, -⟩ := unblock_eq_ok hunblk
  have hreqst := hedits.requested (by
    intro id state hnext
    unfold unblocked at hnext
    split at hnext
    · split at hnext
      · cases hnext
      · split at hnext <;> cases hnext
    · exact hnext)
  exact {
    attempts := by rw [hother]
    builds := fun _ build hbuild => ⟨build, by rw [hother]; exact hbuild, rfl⟩
    cancellations := by rw [hother]
    requested := hreqst
    directed := fun h id lease hlease hcur hstate =>
      h id lease (by rw [hother] at hlease; exact hlease) hcur (hreqst _ hstate) }

theorem redirect_quiet (p : LeaseRow → Bool) (state : LeaseState) :
    Quiet s (s.redirectLeases p state) where
  attempts := rfl
  builds _ build hbuild := ⟨build, hbuild, rfl⟩
  cancellations := rfl
  requested _ h := h
  directed := by
    refine directed_of_find? (updateLeases_find? _ state) (fun _ h => h) fun row => ?_
    split
    · rename_i htakes
      have htakes := (of_decide_eq_true htakes).2
      refine ⟨rfl, fun _ => ⟨takesDirective_isCurrent htakes, fun hstate => ?_⟩⟩
      -- a Lease that is already told to cancel takes no other directive
      rw [hstate] at htakes
      cases htakes
    · exact ⟨rfl, fun hcur => ⟨hcur, fun hstate => hstate⟩⟩

theorem complete_quiet {row : JobCompletionRow} (hins : s.insertCompletion row = .ok s') :
    Quiet s s' := by
  rw [(insertCompletion_eq_ok hins).1]
  exact ⟨rfl, fun _ build hbuild => ⟨build, hbuild, rfl⟩, rfl, fun _ h => h, fun h => h⟩

/-! ## New Attempts -/

theorem materializeAttempt_evolution (hbuild : s.builds.find? attempt.buildId = some build)
    (hmat : s.materializeAttempt rules attempt jobs createdAt = .ok s') :
    Evolution s s' := by
  have hother := (materializeAttempt_eq_ok hmat).1
  obtain ⟨hatts, hjobs⟩ := materializeAttempt_evolves
    (p := fun row => ∃ build, s.builds.find? row.buildId = some build) ⟨build, hbuild⟩ hmat
  rw [hother] at hatts hjobs ⊢
  exact { Evolution.refl _ with
    attempts := hatts
    jobs := hjobs
    leases := .refl LeaseRow.advances_refl _
    completions := .refl Eq.refl _ }

theorem initialState_ne_cancelling (job : MaterializedJob) : job.initialState ≠ .cancelling := by
  unfold MaterializedJob.initialState
  split <;> exact JobState.noConfusion

/-- The next Attempt of a Build whose other Attempts have ended. -/
theorem Coherent.materialize (h : Coherent s) (hlink : Linked s)
    (hbuild : s.builds.find? attempt.buildId = some build)
    (hgraph : materializedGraph jobs = .ok ()) (hstate : attempt.state = .running)
    (holder : ∀ other ∈ s.attempts.rows, other.buildId = attempt.buildId →
      other.state.isTerminal = true ∧ other.attemptNumber < attempt.attemptNumber)
    (hfree : s.cancellationRequested attempt.buildId = false)
    (hmat : s.materializeAttempt rules attempt jobs createdAt = .ok s') : Coherent s' := by
  have he := materializeAttempt_evolution hbuild hmat
  obtain ⟨hother, hfresh, hatts, -, -, -⟩ := materializeAttempt_eq_ok hmat
  have hcanc : ∀ id, s'.cancellationRequested id = s.cancellationRequested id := by
    intro id
    rw [hother]
    rfl
  have hmem : ∀ row ∈ s'.attempts.rows, row = attempt ∨ row ∈ s.attempts.rows := by
    intro row hrow
    have hfound := Table.find?_of_mem _ hrow
    rw [hatts] at hfound
    split at hfound
    · exact .inl (Option.some.inj hfound).symm
    · exact .inr (mem_of_find? hfound)
  -- a Job is either an old one or one of the new Attempt
  have hnew : ∀ id, (∃ job, s.jobs.find? id = some job) ∨
      (∀ buildId, s'.buildOf id = some buildId → buildId = attempt.buildId) := by
    intro id
    cases hold : s.jobs.find? id with
    | some job => exact .inl ⟨job, rfl⟩
    | none =>
      refine .inr fun buildId hof => ?_
      obtain ⟨job', attempt', hjob', hatt', rfl⟩ := buildOf_eq_some.mp hof
      obtain ⟨before, hbef, -⟩ | ⟨-, -, hnone⟩ := he.jobs.origin _ _ hjob'
      · rw [hold] at hbef
        cases hbef
      · rw [hatts] at hatt'
        split at hatt'
        · cases hatt'
          rfl
        · rw [hnone] at hatt'
          cases hatt'
  have hreqst : ∀ id, s'.stateOf id = some .cancelling → s.stateOf id = some .cancelling := by
    intro id hid
    obtain hold | ⟨job, -, -, hinit⟩ := (materializeAttempt_stateOf hmat id _).mp hid
    · exact hold
    · exact absurd hinit (initialState_ne_cancelling job)
  refine ⟨?_, ?_, ?_, ?_, ?_, ?_, ?_, ?_⟩
  · intro id row hrow
    rw [hatts] at hrow
    split at hrow
    · rename_i hid
      rw [← hid]
      exact materializeAttempt_valid hlink hgraph hmat
    · obtain ⟨f, hperm, hf⟩ := he.attemptJobs hrow
      exact ((h.graph id row hrow).advance hf).perm hperm
  · intro id row hrow hterm job hjob
    rw [hatts] at hrow
    split at hrow
    · cases hrow
      rw [hstate] at hterm
      cases hterm
    · obtain ⟨f, hperm, hf⟩ := he.attemptJobs hrow
      obtain ⟨before, hbef, rfl⟩ := mem_map.mp (hperm.mem_iff.mp hjob)
      have hended := h.ended id row hrow hterm before hbef
      rw [(hf before hbef).2.terminal hended]
      exact hended
  · intro row hrow other horow hsame hnum
    obtain rfl | hrow := hmem row hrow
    · obtain rfl | horow := hmem other horow
      · rfl
      · exact absurd hnum (ne_of_gt (holder other horow hsame.symm).2)
    · obtain rfl | horow := hmem other horow
      · exact absurd hnum (ne_of_lt (holder row hrow hsame).2)
      · exact h.numbered row hrow other horow hsame hnum
  · intro row hrow hopen other horow hsame
    obtain rfl | hrow := hmem row hrow
    · obtain rfl | horow := hmem other horow
      · exact le_refl _
      · exact le_of_lt (holder other horow hsame).2
    · obtain rfl | horow := hmem other horow
      · rw [(holder row hrow hsame.symm).1] at hopen
        cases hopen
      · exact h.newest row hrow hopen other horow hsame
  · intro id hid
    rw [hcanc] at hid
    obtain ⟨found, hfound, hnot⟩ := h.notFailed id hid
    exact ⟨found, by rw [hother]; exact hfound, hnot⟩
  · intro id buildId state hof hid hstateOf
    rw [hcanc] at hid
    obtain ⟨job, hjob⟩ | hjob := hnew id
    · rw [he.buildOf hlink hjob] at hof
      exact (he.stateOf hstateOf hjob).targeted
        (h.targeted id buildId _ hof hid (stateOf_eq_some.mpr ⟨job, hjob, rfl⟩))
    · rw [hjob buildId hof, hfree] at hid
      cases hid
  · intro id buildId hof hid
    have hbef := hreqst id hid
    obtain ⟨job, hjob, -⟩ := stateOf_eq_some.mp hbef
    rw [he.buildOf hlink hjob] at hof
    rw [hcanc]
    exact h.requested id buildId hof hbef
  · intro id lease hlease hcur hid
    exact h.directed id lease (by rw [hother] at hlease; exact hlease) hcur (hreqst _ hid)

theorem setAttemptState_find? (attemptId : AttemptId) (state : AttemptState) (id : AttemptId) :
    (s.setAttemptState attemptId state).attempts.find? id =
      (s.attempts.find? id).map fun row => if row.id = attemptId then row.withState state else row := by
  rw [setAttemptState, Table.find?_updateWhere]
  simp only [decide_eq_true_eq]

theorem setBuildState_find? (buildId : BuildId) (state : BuildState) (id : BuildId) :
    (s.setBuildState buildId state).builds.find? id =
      (s.builds.find? id).map fun row => if row.id = buildId then row.withState state else row := by
  rw [setBuildState, Table.find?_updateWhere]
  simp only [decide_eq_true_eq]

/-- The state of a Build matters only when it was cancelled. -/
theorem Coherent.setBuildState (h : Coherent s) (buildId : BuildId) (state : BuildState)
    (hstate : s.cancellationRequested buildId = true → state ≠ .failed) :
    Coherent (s.setBuildState buildId state) where
  graph := h.graph
  ended := h.ended
  numbered := h.numbered
  newest := h.newest
  notFailed := by
    intro id hid
    obtain ⟨build, hbuild, hnot⟩ := h.notFailed id hid
    refine ⟨if build.id = buildId then build.withState state else build, ?_, ?_⟩
    · rw [setBuildState_find?, hbuild]
      rfl
    · split
      · rename_i hsame
        rw [← hsame, key_of_find? hbuild] at hstate
        exact hstate hid
      · exact hnot
  targeted := h.targeted
  requested := h.requested
  directed := h.directed

theorem accept_coherent (h : Coherent s) (hlink : Linked s) {s₁ : StoreState}
    (hins : s.insertBuild build = .ok s₁) (hatt : attempt.buildId = build.id)
    (hstate : attempt.state = .running) (hgraph : materializedGraph jobs = .ok ())
    (hmat : s₁.materializeAttempt rules attempt jobs createdAt = .ok s') : Coherent s' := by
  obtain ⟨hother, hfresh, hblds⟩ := insertBuild_eq_ok hins
  have hadded : s.builds.Evolves BuildRow.Advances (fun _ => True) s₁.builds :=
    evolves_of_insert BuildRow.advances_refl hfresh trivial hblds
  have hquiet : Quiet s s₁ := by
    refine { attempts := by rw [hother]
             builds := fun id found hfound => ⟨found, ?_, rfl⟩
             cancellations := by rw [hother]
             requested := fun _ hid => by rw [hother] at hid; exact hid
             directed := fun hdirected id lease hlease => ?_ }
    · rw [hblds, if_neg, hfound]
      rintro rfl
      rw [hfresh] at hfound
      cases hfound
    · rw [hother] at hlease ⊢
      exact hdirected id lease hlease
  have he : Evolution s s₁ := by
    rw [hother] at hadded ⊢
    exact { Evolution.refl _ with
      builds := hadded
      attempts := .refl AttemptRow.advances_refl _ }
  have hfound : s₁.builds.find? attempt.buildId = some build := by rw [hblds, hatt, if_pos rfl]
  refine (h.quiet hlink he hquiet).materialize (hlink.evolution he) hfound hgraph hstate ?_ ?_
    hmat
  · intro other horow hsame
    rw [hquiet.attempts] at horow
    obtain ⟨found, hfound⟩ := hlink.build _ other (Table.find?_of_mem _ horow)
    rw [hsame, hatt, hfresh] at hfound
    cases hfound
  · by_contra hcanc
    rw [Bool.not_eq_false, cancellationRequested, hquiet.cancellations] at hcanc
    obtain ⟨found, hfound, -⟩ := h.notFailed attempt.buildId hcanc
    rw [hatt, hfresh] at hfound
    cases hfound

/-- A further Attempt of a failed Build leaves the store coherent. -/
theorem retry_coherent (h : Coherent s) (hlink : Linked s) {source : AttemptRow}
    (hbuild : s.builds.find? attempt.buildId = some build) (hfailed : build.state = .failed)
    (hsrc : s.latestAttempt attempt.buildId = some source) (hlost : source.state = .failed)
    (hnum : (attempt.attemptNumber : Nat) = source.attemptNumber + 1)
    (hstate : attempt.state = .running) (hgraph : materializedGraph jobs = .ok ())
    (hmat : s.materializeAttempt rules attempt jobs createdAt = .ok s') :
    Coherent (s'.setBuildState attempt.buildId .running) := by
  obtain ⟨hsourceRow, hsourceBuild, hlate⟩ := latestAttempt_eq_some hsrc
  have hfree : s.cancellationRequested attempt.buildId = false := by
    by_contra hcanc
    obtain ⟨found, hfound, hnot⟩ := h.notFailed _ (Bool.of_not_eq_false hcanc)
    rw [hbuild] at hfound
    cases hfound
    exact hnot hfailed
  refine (h.materialize hlink hbuild hgraph hstate (fun other horow hsame => ⟨?_, ?_⟩) hfree
    hmat).setBuildState _ _ fun _ => by simp
  · by_contra hopen
    rw [Bool.not_eq_true] at hopen
    -- an open Attempt would be the newest one, which failed
    have hmem := mem_of_find? hsourceRow
    have hle := h.newest other horow hopen source hmem (by rw [hsourceBuild, hsame])
    have heq := h.numbered other horow source hmem (by rw [hsourceBuild, hsame])
      (le_antisymm (hlate other horow hsame) hle)
    rw [heq, hlost] at hopen
    cases hopen
  · have hle : (other.attemptNumber : Nat) ≤ source.attemptNumber := hlate other horow hsame
    rw [Fin.lt_def, hnum]
    omega

/-! ## The end of an Attempt -/

/-- Only an open Attempt is left open, so the newest one stays the only one. -/
theorem Coherent.setAttemptState_newest (h : Coherent s)
    (state : AttemptState) (hatt : s.attempts.find? attempt.id = some attempt)
    (hopen : state.isTerminal = false → attempt.state.isTerminal = false) :
    (∀ row ∈ (s.setAttemptState attempt.id state).attempts.rows,
      ∀ other ∈ (s.setAttemptState attempt.id state).attempts.rows,
        row.buildId = other.buildId → row.attemptNumber = other.attemptNumber → row = other) ∧
    ∀ row ∈ (s.setAttemptState attempt.id state).attempts.rows, row.state.isTerminal = false →
      ∀ other ∈ (s.setAttemptState attempt.id state).attempts.rows, other.buildId = row.buildId →
        other.attemptNumber ≤ row.attemptNumber := by
  have hrows : ∀ row' ∈ (s.setAttemptState attempt.id state).attempts.rows,
      ∃ row ∈ s.attempts.rows, row' = if row.id = attempt.id then row.withState state else row := by
    intro row' hrow'
    have hfind := Table.find?_of_mem _ hrow'
    rw [setAttemptState_find?, Option.map_eq_some_iff] at hfind
    obtain ⟨row, hrow, heq⟩ := hfind
    exact ⟨row, mem_of_find? hrow, heq.symm⟩
  have hbid : ∀ row : AttemptRow,
      (if row.id = attempt.id then row.withState state else row).buildId = row.buildId := by
    intro row
    split <;> rfl
  have hnum : ∀ row : AttemptRow,
      (if row.id = attempt.id then row.withState state else row).attemptNumber =
        row.attemptNumber := by
    intro row
    split <;> rfl
  constructor
  · intro row' hrow' other' hother' hbuild hsame
    obtain ⟨row, hrow, rfl⟩ := hrows row' hrow'
    obtain ⟨other, hother, rfl⟩ := hrows other' hother'
    rw [hbid, hbid] at hbuild
    rw [hnum, hnum] at hsame
    rw [h.numbered row hrow other hother hbuild hsame]
  · intro row' hrow' hrun other' hother' hbuild
    obtain ⟨row, hrow, rfl⟩ := hrows row' hrow'
    obtain ⟨other, hother, rfl⟩ := hrows other' hother'
    rw [hbid, hbid] at hbuild
    rw [hnum, hnum]
    refine h.newest row hrow ?_ other hother hbuild
    split at hrun
    · rename_i hid
      have heq : row = attempt :=
        s.attempts.eq_of_key_eq hrow (mem_of_find? hatt) hid
      rw [heq]
      exact hopen hrun
    · exact hrun

theorem Coherent.setAttemptState (h : Coherent s) {state : AttemptState}
    (hatt : s.attempts.find? attempt.id = some attempt) (hterm : state.isTerminal = true →
      ∀ job ∈ s.attemptJobs attempt.id, job.state.isTerminal = true)
    (hopen : state.isTerminal = false → attempt.state.isTerminal = false) :
    Coherent (s.setAttemptState attempt.id state) := by
  have hbef : ∀ id row', (s.setAttemptState attempt.id state).attempts.find? id = some row' →
      ∃ row, s.attempts.find? id = some row ∧
        row' = if row.id = attempt.id then row.withState state else row := by
    intro id row' hrow'
    rw [setAttemptState_find?, Option.map_eq_some_iff] at hrow'
    obtain ⟨row, hrow, heq⟩ := hrow'
    exact ⟨row, hrow, heq.symm⟩
  have hof : ∀ id, (s.setAttemptState attempt.id state).buildOf id = s.buildOf id := by
    intro id
    ext buildId
    rw [buildOf_eq_some, buildOf_eq_some]
    constructor
    · rintro ⟨job, row', hjob, hrow', rfl⟩
      obtain ⟨row, hrow, rfl⟩ := hbef _ row' hrow'
      exact ⟨job, row, hjob, hrow, by split <;> rfl⟩
    · rintro ⟨job, row, hjob, hrow, rfl⟩
      refine ⟨job, if row.id = attempt.id then row.withState state else row, hjob, ?_, ?_⟩
      · rw [setAttemptState_find?, hrow]
        rfl
      · split <;> rfl
  obtain ⟨hnumd, hnewest⟩ := h.setAttemptState_newest state hatt hopen
  refine ⟨?_, ?_, hnumd, hnewest, h.notFailed, ?_, ?_, h.directed⟩
  · intro id row' hrow'
    obtain ⟨row, hrow, -⟩ := hbef id row' hrow'
    exact h.graph id row hrow
  · intro id row' hrow' hended
    obtain ⟨row, hrow, rfl⟩ := hbef id row' hrow'
    split at hended
    · rename_i hid
      rw [← key_of_find? hrow, hid]
      exact hterm hended
    · exact h.ended id row hrow hended
  · intro id buildId jobState hbuild
    rw [hof] at hbuild
    exact h.targeted id buildId jobState hbuild
  · intro id buildId hbuild
    rw [hof] at hbuild
    exact h.requested id buildId hbuild

/-- An Attempt takes the state of its Jobs, and its Build follows. -/
theorem aggregate_coherent (h : Coherent s) (hatt : s.attempts.find? attempt.id = some attempt)
    (hterm : attemptState.isTerminal = true →
      ∀ job ∈ s.attemptJobs attempt.id, job.state.isTerminal = true)
    (hopen : attemptState.isTerminal = false →
      ∃ job ∈ s.attemptJobs attempt.id, job.state.isTerminal = false)
    (hcanc : s.cancellationRequested attempt.buildId = true → buildState ≠ .failed) :
    Coherent (s.aggregate attempt.id attempt.buildId attemptState buildState) := by
  refine (h.setAttemptState hatt hterm fun hrun => ?_).setBuildState _ _ hcanc
  -- an ended Attempt has no open Job
  obtain ⟨job, hjob, hunfin⟩ := hopen hrun
  by_contra hended
  rw [Bool.not_eq_false] at hended
  rw [h.ended _ attempt hatt hended job hjob] at hunfin
  cases hunfin

/-! ## Cancellation -/

theorem propagated_eq_afterRequest (hcancels : Cancels s attemptId cancelled cancelling)
    (hjob : job ∈ s.attemptJobs attemptId) :
    propagated cancelled cancelling job.id job.state = afterRequest job.state := by
  have hsame : ∀ other ∈ s.attemptJobs attemptId, other.id = job.id → other = job :=
    fun other hother hid =>
      s.jobs.eq_of_key_eq (mem_attemptJobs.mp hother).1 (mem_attemptJobs.mp hjob).1 hid
  have hleft : job.id ∈ cancelled ↔ job.state = .blocked ∨ job.state = .ready := by
    rw [hcancels.cancelled]
    constructor
    · rintro ⟨other, hother, hid, hstate⟩
      rwa [hsame other hother hid] at hstate
    · exact fun hstate => ⟨job, hjob, rfl, hstate⟩
  have hright : job.id ∈ cancelling ↔ job.state = .leased ∨ job.state = .running := by
    rw [hcancels.cancelling]
    constructor
    · rintro ⟨other, hother, hid, hstate⟩
      rwa [hsame other hother hid] at hstate
    · exact fun hstate => ⟨job, hjob, rfl, hstate⟩
  simp only [propagated, hleft, hright]
  cases job.state <;> simp [afterRequest]

theorem isTerminal_afterRequest (h : afterRequest state ≠ .cancelling) :
    (afterRequest state).isTerminal = true := by
  cases state <;> first | rfl | exact absurd rfl h

theorem isUntargeted_of_isTerminal (h : state.isTerminal = true) : isUntargeted state = false := by
  cases state <;> first | rfl | cases h

/-- The other Attempts of a Build with an active newest Attempt have ended. -/
theorem Coherent.older_ended (h : Coherent s) {other : AttemptRow}
    (hlate : ∀ row ∈ s.attempts.rows, row.buildId = attempt.buildId →
      row.attemptNumber ≤ attempt.attemptNumber)
    (hatt : attempt ∈ s.attempts.rows) (hother : other ∈ s.attempts.rows)
    (hbuild : other.buildId = attempt.buildId) (hne : other ≠ attempt) :
    other.state.isTerminal = true := by
  by_contra hopen
  rw [Bool.not_eq_true] at hopen
  have hle := h.newest other hother hopen attempt hatt hbuild.symm
  exact hne (h.numbered other hother attempt hatt hbuild
    (le_antisymm (hlate other hother hbuild) hle))

/-- Cancelling the latest Attempt of a Build leaves the store coherent. -/
theorem cancel_coherent (h : Coherent s) (hlink : Linked s)
    (hbuild : s.builds.find? attempt.buildId = some build)
    (hatt : s.latestAttempt attempt.buildId = some attempt)
    (hact : attempt.state.isTerminal = false)
    (hcancels : Cancels s attempt.id cancelled cancelling)
    (hterm : attemptState.isTerminal = true → ∀ job ∈ s.attemptJobs attempt.id,
      afterRequest job.state ≠ .cancelling) (hnfail : buildState ≠ .failed)
    (hins : ((s.propagate cancelled cancelling).aggregate attempt.id attempt.buildId attemptState
      buildState).insertCancellation
        ⟨attempt.buildId, attempt.id, cancelled, cancelling, attemptState, buildState⟩ = .ok s') :
    Coherent s' := by
  have he : Evolution s s' := cancel_evolution hcancels hins
  obtain ⟨hrow, -, hlate⟩ := latestAttempt_eq_some hatt
  have hmem := mem_of_find? hrow
  obtain ⟨hother, -, hfind⟩ := insertCancellation_eq_ok hins
  rw [aggregate_eq, propagate_eq] at hother hfind
  have hedits : Edits (propagated cancelled cancelling) s.jobs s'.jobs := by
    rw [hother]
    exact propagate_edits cancelled cancelling
  have hatts : s'.attempts = (s.setAttemptState attempt.id attemptState).attempts := by
    rw [hother]
    rfl
  have hblds : s'.builds = (s.setBuildState attempt.buildId buildState).builds := by
    rw [hother]
    rfl
  have hlses : ∀ id, s'.leases.find? id = (s.leases.find? id).map fun row =>
      if decide (row.jobId ∈ cancelling) ∧ row.state.takesDirective then
        row.withState .cancellationRequested
      else row := by
    intro id
    rw [hother, propagate_leases, redirectLeases, updateLeases_find?]
    simp only [decide_eq_true_eq]
  have hreq : ∀ id, s'.cancellationRequested id = true ↔
      id = attempt.buildId ∨ s.cancellationRequested id = true := by
    intro id
    rw [cancellationRequested, cancellationRequested, contains_eq_isSome,
      contains_eq_isSome, hfind]
    split
    · rename_i hid
      exact iff_of_true rfl (.inl hid.symm)
    · rename_i hid
      rw [or_iff_right (Ne.symm hid)]
  -- no Job is new, and each one belongs to the Build it belonged to
  have hold : ∀ id buildId, s'.buildOf id = some buildId → ∃ job row,
      s.jobs.find? id = some job ∧ s.attempts.find? job.attemptId = some row ∧
        row.buildId = buildId := by
    intro id buildId hof
    obtain ⟨job', row', hjob', hrow', -⟩ := buildOf_eq_some.mp hof
    obtain ⟨job, hjob, -⟩ | ⟨-, -, hfresh⟩ := he.jobs.origin _ _ hjob'
    · rw [he.buildOf hlink hjob] at hof
      obtain ⟨job, row, hjob, hrow, heq⟩ := buildOf_eq_some.mp hof
      exact ⟨job, row, hjob, hrow, heq⟩
    · rw [hatts, setAttemptState_find?, hfresh] at hrow'
      cases hrow'
  have hstateOf : ∀ id job, s.jobs.find? id = some job →
      s'.stateOf id = some (propagated cancelled cancelling id job.state) := by
    intro id job hjob
    rw [hedits.stateOf, stateOf_eq_some.mpr ⟨job, hjob, rfl⟩]
    rfl
  have hmemJob : ∀ id ∈ cancelling, ∃ job ∈ s.attemptJobs attempt.id, job.id = id ∧
      s.jobs.find? id = some job := by
    intro id hid
    obtain ⟨job, hjob, rfl, -⟩ := (hcancels.cancelling id).mp hid
    exact ⟨job, hjob, rfl, Table.find?_of_mem _ (mem_attemptJobs.mp hjob).1⟩
  obtain ⟨hnumd, hnewest⟩ := h.setAttemptState_newest attemptState hrow fun _ => hact
  refine ⟨?_, ?_, by rw [hatts]; exact hnumd, by rw [hatts]; exact hnewest,
    ?_, ?_, ?_, ?_⟩
  · intro id row' hrow'
    rw [hatts, setAttemptState_find?, Option.map_eq_some_iff] at hrow'
    obtain ⟨row, hfound, -⟩ := hrow'
    obtain ⟨f, hperm, hf⟩ := he.attemptJobs hfound
    exact ((h.graph id row hfound).advance hf).perm hperm
  · intro id row' hrow' hended job' hjob'
    rw [hatts, setAttemptState_find?, Option.map_eq_some_iff] at hrow'
    obtain ⟨row, hfound, rfl⟩ := hrow'
    obtain ⟨f, hperm, hf⟩ := he.attemptJobs hfound
    obtain ⟨job, hjob, rfl⟩ := mem_map.mp (hperm.mem_iff.mp hjob')
    split at hended
    · rename_i hid
      rw [← key_of_find? hfound, hid] at hjob hjob'
      have hstate := attemptJobs_stateOf hjob'
      rw [(hf job (by rw [← key_of_find? hfound, hid]; exact hjob)).1.id,
        hstateOf _ job (Table.find?_of_mem _ (mem_attemptJobs.mp hjob).1),
        propagated_eq_afterRequest hcancels hjob, Option.some_inj] at hstate
      rw [← hstate]
      exact isTerminal_afterRequest (hterm hended job hjob)
    · have hjobEnded := h.ended id row hfound hended job hjob
      rw [(hf job hjob).2.terminal hjobEnded]
      exact hjobEnded
  · intro id hid
    rw [hblds, setBuildState_find?]
    by_cases hsame : id = attempt.buildId
    · refine ⟨build.withState buildState, ?_, hnfail⟩
      rw [hsame, hbuild, Option.map_some, if_pos (key_of_find? hbuild)]
    · obtain ⟨found, hfound, hnot⟩ := h.notFailed id (((hreq id).mp hid).resolve_left hsame)
      refine ⟨found, ?_, hnot⟩
      rw [hfound, Option.map_some, if_neg (by rw [key_of_find? hfound]; exact hsame)]
  · intro id buildId state hof hreqst hstate
    obtain ⟨job, row, hjob, hfound, rfl⟩ := hold id buildId hof
    have hadvs := he.stateOf hstate hjob
    by_cases hsame : row.buildId = attempt.buildId
    · by_cases heq : row = attempt
      · have hmemJob : job ∈ s.attemptJobs attempt.id :=
          mem_attemptJobs.mpr ⟨mem_of_find? hjob, by
            rw [← heq, key_of_find? hfound]⟩
        rw [hstateOf id job hjob, ← key_of_find? hjob,
          propagated_eq_afterRequest hcancels hmemJob, Option.some_inj] at hstate
        rw [← hstate]
        exact isUntargeted_afterRequest _
      · -- the Jobs of the older Attempts have ended
        have hended := h.older_ended hlate hmem (mem_of_find? hfound) hsame heq
        exact hadvs.targeted (isUntargeted_of_isTerminal
          (h.ended _ row hfound hended job (mem_attemptJobs.mpr ⟨mem_of_find? hjob, rfl⟩)))
    · exact hadvs.targeted (h.targeted id _ _ (buildOf_eq_some.mpr ⟨job, row, hjob, hfound, rfl⟩)
        (((hreq _).mp hreqst).resolve_left hsame) (stateOf_eq_some.mpr ⟨job, hjob, rfl⟩))
  · intro id buildId hof hstate
    obtain ⟨job, row, hjob, hfound, rfl⟩ := hold id buildId hof
    rw [hreq]
    rw [hstateOf id job hjob, Option.some_inj, propagated] at hstate
    split at hstate
    · rename_i hid
      obtain ⟨found, hmemFound, -, hfoundJob⟩ := hmemJob id hid
      rw [hjob] at hfoundJob
      cases hfoundJob
      rw [(mem_attemptJobs.mp hmemFound).2, hrow] at hfound
      cases hfound
      exact .inl rfl
    · split at hstate
      · cases hstate
      · exact .inr (h.requested id _ (buildOf_eq_some.mpr ⟨job, row, hjob, hfound, rfl⟩)
          (stateOf_eq_some.mpr ⟨job, hjob, hstate⟩))
  · intro id lease' hlease' hcur hstate
    rw [hlses, Option.map_eq_some_iff] at hlease'
    obtain ⟨lease, hlease, rfl⟩ := hlease'
    by_cases htakes : decide (lease.jobId ∈ cancelling) ∧ lease.state.takesDirective
    · rw [if_pos htakes]
      rfl
    · rw [if_neg htakes] at hcur hstate ⊢
      obtain ⟨job, hjob⟩ := hlink.job id lease hlease
      rw [hstateOf _ job hjob, Option.some_inj, propagated] at hstate
      split at hstate
      · rename_i hid
        refine LeaseState.eq_cancellationRequested hcur ?_
        rw [← Bool.not_eq_true]
        exact fun htaken => htakes ⟨decide_eq_true hid, htaken⟩
      · split at hstate
        · cases hstate
        · exact h.directed id lease hlease hcur (stateOf_eq_some.mpr ⟨job, hjob, hstate⟩)

/-! ## Every reachable store -/

theorem Coherent.write (h : Coherent s) (hlink : Linked s) (hwrite : Write rules s s') :
    Coherent s' := by
  have he := hwrite.evolution
  cases hwrite with
  | record | administer | agents | pools | events | logs | workerClaims =>
    exact h.quiet hlink he {}
  | hideLogs => exact h.quiet hlink he (hideLogs_quiet _)
  | accept hbuild hins hatt hstate hgraph hmat =>
    exact accept_coherent h hlink hins hatt hstate hgraph hmat
  | retry hbuild hfailed hsrc hlost hnum hstate hgraph hmat =>
    exact retry_coherent h hlink hbuild hfailed hsrc hlost hnum hstate hgraph hmat
  | take hgrant hjob hready hreg hfree hact htake =>
    exact h.quiet hlink he (take_quiet htake)
  | renew htimed hlease hcur hrenew => exact h.quiet hlink he (renew_quiet hrenew)
  | begin => exact h.quiet hlink he (begin_quiet _)
  | finish huntim hlease hcur hended hjob hheld hterm =>
    exact h.quiet hlink he (finish_quiet hended hterm)
  | requeue htimed hlease hcur hpath hstate henq =>
    exact h.quiet hlink he (requeue_quiet henq)
  | unblock hunblk => exact h.quiet hlink he (unblock_quiet hunblk)
  | aggregate hatt hterm hopen hcanc =>
    exact aggregate_coherent h hatt hterm hopen hcanc
  | complete hjob hterm hlease hsame hins =>
    exact h.quiet hlink he (complete_quiet hins)
  | cancel hbuild hatt hact hcanc hcing hterm hnfail hins =>
    exact cancel_coherent h hlink hbuild hatt hact ⟨hcanc, hcing⟩ hterm
      hnfail hins
  | redirect hdir => exact h.quiet hlink he (redirect_quiet _ _)

theorem Reachable.coherent (h : Reachable rules s) : Coherent s :=
  (h.induction (P := fun s => Linked s ∧ Coherent s) ⟨linked_initial, coherent_initial⟩
    fun _ _ hs hwrite => ⟨hs.1.evolution hwrite.evolution, hs.2.write hs.1 hwrite⟩).2

/-- After any sequence of transactions all references between the tables, the scopes of
    the queue, the graphs of the Attempts and the recorded cancellations are intact. -/
theorem run_coherent (rules : CoreRules) (transactions : List Transaction) :
    let s := run rules .initial transactions
    Linked s ∧ QueueScoped s ∧ Coherent s :=
  have h : Reachable rules (run rules .initial transactions) := ⟨transactions, rfl⟩
  ⟨h.linked, (run_writes rules .initial transactions).queueScoped, h.coherent⟩

end StoreState

end OctaCity.Store
