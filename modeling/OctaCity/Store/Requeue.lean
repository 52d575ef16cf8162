/-
  OctaCity.Store.Requeue

  What the Agent that claims a Job can do with it.  The events of a Job and their
  durable cursor belong to the Job, while an Agent numbers what it reports from 1
  under every Lease.
-/
import OctaCity.Lib.FirstMatch
import OctaCity.Store.AppendSuccess

namespace OctaCity.Store

open Domain Job Lib List Orchestrator Pipeline

/-- How the Agent of a claim names its Lease. -/
def JobClaim.access (claim : JobClaim) : LeaseAccess where
  leaseId := claim.leaseId
  fence := claim.fence
  agentId := claim.agentId
  registrationEpoch := claim.registrationEpoch

namespace StoreState

variable {rules : CoreRules} {s s' : StoreState}

/-! ## Claim order -/

section

variable (rules : CoreRules) (busy : JobId → Bool) (request : JobClaim)
  (registration : RegistrationRow) (pool : PoolRow)

/-- What a claim that was placed may take. -/
def isEligible (candidate : Candidate) : Bool :=
  rules.permitsRuntime pool.admissionPolicy candidate.path.job.jobSpecTemplate.runtime &&
    rules.isCompatibleWithContract registration.inventory request.snapshot
      candidate.path.job.requirements candidate.path.job.jobSpecTemplate
      registration.executionContractVersion && !busy candidate.entry.jobId

theorem selectCandidate_eq : s.selectCandidate rules busy request registration pool =
    (s.candidates request.poolId pool.fairnessPolicy).find?
      (isEligible rules busy request registration pool) := by
  simp only [selectCandidate, ← List.head?_filter]
  refine congrArg List.head? (filter_congr fun candidate hmem => ?_)
  simp [isEligible, (mem_filter.mp (mem_mergeSort.mp hmem)).2, Bool.and_assoc]

variable {rules busy request registration pool}

/-- A placed claim with a candidate and a free Lease id takes the Job. -/
theorem claim_isOk {epoch : Bigint} {candidate : Candidate} {s₁ : StoreState}
    (hwin : request.validate = .ok ())
    (hepoch : number request.registrationEpoch .claimReadyJob = .ok epoch)
    (hbegin : beginMutation s.idempotency.claimReadyJob request.leaseId request.fingerprint
      .lease = .ok none) (hplace : s.placement request epoch = some (registration, pool))
    (hsnap : rules.validateSnapshot request.snapshot registration.inventory = true ∧
      request.snapshot.activeJob = none)
    (hselect : s.selectCandidate rules busy request registration pool = some candidate)
    (htake : s.takeJob (newLease request epoch registration pool candidate.entry.jobId) = .ok s₁) :
    ∃ outcome s', s.claimReadyJob rules busy request = .ok (outcome, s') ∧
      s'.leases = s₁.leases := by
  unfold claimReadyJob
  simp [hwin, hepoch, hbegin, hplace, hsnap.1, hsnap.2, hselect, htake, bind,
    Except.bind]

/-- A claim that changes the store leases a candidate its Agent may take and that stands, in
    claim order, before every other one it may take; a claim that was placed stays empty only
    when there is none. -/
theorem claim_in_order {outcome : JobClaimOutcome}
    (h : s.claimReadyJob rules busy request = .ok (outcome, s')) :
    (s' ≠ s → ∃ epoch registration pool candidate,
      s.placement request epoch = some (registration, pool) ∧
        candidate ∈ s.candidates request.poolId pool.fairnessPolicy ∧
        isEligible rules busy request registration pool candidate = true ∧
        s'.leases.find? request.leaseId =
          some (newLease request epoch registration pool candidate.entry.jobId) ∧
        ∀ other ∈ s.candidates request.poolId pool.fairnessPolicy,
          isEligible rules busy request registration pool other = true → other ≠ candidate →
            s.claimsBefore pool.fairnessPolicy candidate other = true) ∧
    (outcome = .empty → ∀ epoch registration pool,
      number request.registrationEpoch .claimReadyJob = .ok epoch →
        s.placement request epoch = some (registration, pool) →
          ∀ other ∈ s.candidates request.poolId pool.fairnessPolicy,
            ¬isEligible rules busy request registration pool other = true) := by
  constructor
  · intro hchg
    obtain hsame | ⟨epoch, registration, pool, candidate, s₁, -, -, hplace, hselect, htake, hs',
      -⟩ := claim_eq_ok h
    · exact absurd hsame hchg
    rw [selectCandidate_eq] at hselect
    refine ⟨epoch, registration, pool, candidate, hplace, mem_of_find?_eq_some hselect,
      List.find?_some hselect, ?_, fun other hmem heligible => Table.rel_of_find?
        (pairwise_mergeSort (fun a b c => ?_) (fun a b => ?_) _) hselect hmem heligible⟩
    · rw [hs']
      exact ((takeJob_eq_ok htake).2.2.2.1 request.leaseId).trans (if_pos rfl)
    · simpa [claimsBefore] using fun hab hbc => le_trans hab hbc
    · simpa [claimsBefore] using le_total _ _
  · rintro rfl epoch registration pool hepoch hplace
    obtain ⟨-, h⟩ := check_eq_ok.mp h
    obtain ⟨_, hsame, h⟩ := bind_eq_ok.mp h
    cases hepoch.symm.trans hsame
    obtain ⟨begun, -, h⟩ := bind_eq_ok.mp h
    cases begun with
    | some stored => cases h
    | none =>
      simp only [hplace, guard_eq_ok, selectCandidate_eq] at h
      split at h
      · exact List.find?_eq_none.mp ‹_›
      · obtain ⟨s₁, -, h⟩ := bind_eq_ok.mp h.2
        cases h

end

/-! ## Events of one Lease -/

/-- The events that were appended under a Lease. -/
def deliveredUnder (s : StoreState) (leaseId : LeaseId) : List DurableJobEvent :=
  (s.jobEvents.filter fun row => row.leaseId = leaseId).map (·.event)

theorem insertEvents_deliveredUnder (jobId : JobId) (leaseId other : LeaseId)
    (events : List DurableJobEvent) : (s.insertEvents jobId leaseId events).deliveredUnder other =
      s.deliveredUnder other ++ if other = leaseId then events else [] := by
  unfold deliveredUnder insertEvents
  rw [filter_append, map_append, filter_map, map_map]
  by_cases hlease : other = leaseId
  · subst hlease
    simp [Function.comp_def]
  · have hne : ¬ leaseId = other := fun h => hlease h.symm
    simp [Function.comp_def, hlease, hne]

/-- A durable event was appended under a Lease of its Job. -/
theorem Reachable.event_lease (h : Reachable rules s) : ∀ row ∈ s.jobEvents,
    ∃ lease, s.leases.find? row.leaseId = some lease ∧ lease.jobId = row.jobId := by
  refine h.induction (P := fun s => ∀ row ∈ s.jobEvents,
    ∃ lease, s.leases.find? row.leaseId = some lease ∧ lease.jobId = row.jobId)
    (fun row hrow => nomatch hrow) fun s s' hs hwrite row hrow => ?_
  have hbef : ∃ lease, s.leases.find? row.leaseId = some lease ∧ lease.jobId = row.jobId := by
    obtain hsame | ⟨jobId, leaseId, events, rfl, -, -, lease, hlease, hjob, -⟩ := hwrite.jobEvents
    · rw [hsame] at hrow
      exact hs row hrow
    · obtain hold | hnew := mem_append.mp hrow
      · exact hs row hold
      · obtain ⟨event, -, rfl⟩ := mem_map.mp hnew
        exact ⟨lease, hlease, hjob⟩
  obtain ⟨lease, hlease, hjob⟩ := hbef
  obtain ⟨lease', hlease', hadvs⟩ := hwrite.evolution.leases.grows _ _ hlease
  exact ⟨lease', hlease', hadvs.jobId.trans hjob⟩

variable {leaseId : LeaseId}

theorem current_lease_eq (hlink : Linked s) (hsound : s.dispatch.Sound) {other : LeaseId}
    {lease row : LeaseRow} (hlease : s.leases.find? leaseId = some lease)
    (hcur : lease.state.isCurrent = true) (hrow : s.leases.find? other = some row)
    (hrowCurrent : row.state.isCurrent = true) (hjob : row.jobId = lease.jobId) :
    other = leaseId := by
  have hid := Table.key_of_find? hlease
  have hrowId := Table.key_of_find? hrow
  obtain ⟨agentId, howns⟩ :=
    hlink.owns (mem_currentLeases.mpr ⟨Table.mem_of_find? hlease, hcur⟩)
  obtain ⟨agentId', howns'⟩ :=
    hlink.owns (mem_currentLeases.mpr ⟨Table.mem_of_find? hrow, hrowCurrent⟩)
  rw [hjob] at howns'
  have heq : row.id = lease.id := hsound.lease_eq howns' howns
  rw [← hrowId, ← hid]
  exact heq

/-- While the Lease is current, what its holder delivered is what the cursor of
    its Job moved since `base`. -/
structure DeliveredSince (base : Nat) (leaseId : LeaseId) (jobId : JobId) (s : StoreState) :
    Prop where
  linked : Linked s
  sound : s.dispatch.Sound
  numbered : Numbered s
  granted : ∃ lease, s.leases.find? leaseId = some lease ∧ lease.jobId = jobId ∧
    (lease.state.isCurrent = true →
      s.durableThrough jobId = base + (s.deliveredUnder leaseId).length)

section

variable {base : Nat} {jobId : JobId} (h : DeliveredSince base leaseId jobId s)

include h

theorem DeliveredSince.write (hwrite : Write rules s s') :
    DeliveredSince base leaseId jobId s' := by
  have hnumd := h.numbered.write hwrite
  refine ⟨h.linked.evolution hwrite.evolution, h.sound.moves (hwrite.moves h.linked), hnumd, ?_⟩
  obtain ⟨lease, hlease, hjob, hdelivered⟩ := h.granted
  obtain ⟨lease', hlease', hadvs⟩ := hwrite.evolution.leases.grows _ _ hlease
  refine ⟨lease', hlease', hadvs.jobId.trans hjob, fun hcur' => ?_⟩
  -- an ended Lease does not become current again
  have hcur : lease.state.isCurrent = true := by
    by_contra hended
    rw [hadvs.2 (Bool.of_not_eq_true hended)] at hcur'
    exact hended hcur'
  have hbase := hdelivered hcur
  rw [h.numbered.durableThrough] at hbase
  rw [hnumd.durableThrough]
  obtain hsame | ⟨target, holder, events, rfl, -, -, row, hrow, hrowJob, hrowCurrent⟩ :=
    hwrite.jobEvents
  · rw [eventsOf, deliveredUnder, hsame]
    exact hbase
  · rw [insertEvents_eventsOf, insertEvents_deliveredUnder]
    by_cases htgt : jobId = target
    · -- the events came from the only current Lease of the Job
      have hhold : holder = leaseId := current_lease_eq h.linked h.sound hlease hcur hrow
        hrowCurrent (by rw [hrowJob, hjob, htgt])
      rw [if_pos htgt, if_pos hhold.symm, length_append, length_append]
      omega
    · have hhold : leaseId ≠ holder := by
        rintro rfl
        rw [hlease] at hrow
        cases hrow
        exact htgt (hjob.symm.trans hrowJob)
      rw [if_neg htgt, if_neg hhold, append_nil, append_nil]
      exact hbase

theorem DeliveredSince.run (later : List Transaction) :
    DeliveredSince base leaseId jobId (run rules s later) :=
  writes_keep (fun _ _ hs hwrite => hs.write hwrite) (run_writes rules s later) h

end

/-! ## A new Lease -/

variable {busy : JobId → Bool} {claim : JobClaim} {outcome : JobClaimOutcome} {lease : LeaseRow}

/-- A claim that grants a Lease delivered nothing yet, and its Agent is the
    holder from the time of the claim on. -/
theorem Reachable.claim_grants (h : Reachable rules s)
    (hclaim : s.claimReadyJob rules busy claim = .ok (outcome, s'))
    (hfresh : s.leases.find? claim.leaseId = none)
    (hgrant : s'.leases.find? claim.leaseId = some lease) :
    s'.jobEvents = s.jobEvents ∧ s'.deliveredUnder claim.leaseId = [] ∧
      ∃ path registration, CurrentHolder s' claim.claimedAt claim.claimedAt claim.access lease path
        registration := by
  have hlink : Linked s' :=
    writes_keep (fun _ _ hs hwrite => hs.evolution hwrite.evolution) (claim_mutates hclaim).writes h.linked
  obtain rfl | ⟨epoch, registration, pool, candidate, s₁, hwin, hepoch, hplace, hselect,
    htake, hs', -⟩ := claim_eq_ok hclaim
  · rw [hfresh] at hgrant
    cases hgrant
  · obtain ⟨hmem, hagent, -, hunrevoked, hregd⟩ := placement_eq_some hplace
    obtain ⟨hother, -, -, hlses, -, -⟩ := takeJob_eq_ok htake
    have hevs : s'.jobEvents = s.jobEvents := by rw [hs', hother]
    have hrow : lease = newLease claim epoch registration pool candidate.entry.jobId := by
      have hfound : s₁.leases.find? claim.leaseId = some lease := by
        rw [hs'] at hgrant
        exact hgrant
      have hid : (newLease claim epoch registration pool candidate.entry.jobId).id =
          claim.leaseId := rfl
      rw [hlses, if_pos hid, Option.some_inj] at hfound
      exact hfound.symm
    refine ⟨hevs, ?_, ?_⟩
    · -- an event under the new Lease would have had its row before
      rw [deliveredUnder, hevs, map_eq_nil_iff, filter_eq_nil_iff]
      intro row hrow hid
      obtain ⟨before, hbef, -⟩ := h.event_lease row hrow
      rw [of_decide_eq_true hid, hfresh] at hbef
      cases hbef
    · obtain ⟨job, hjob⟩ := hlink.job _ _ hgrant
      obtain ⟨path, hpath, -⟩ := hlink.locate hjob
      have hreg : s'.registrations.find? registration.id = some registration := by
        rw [hs', hother]
        exact Table.find?_of_mem _ hmem
      have hnum : (epoch : Nat) = claim.registrationEpoch := number_eq_ok hepoch
      subst hrow
      exact ⟨path, registration,
        { found := hgrant
          located := hpath
          enrolled := hreg
          current := rfl
          unexpired := ⟨hwin, hwin⟩
          unrevoked := hunrevoked
          registered := hregd
          agent := hagent
          epoch := hnum
          fence := rfl }⟩

/-! ## What the holder can do -/

/-- A completion is applied, unless a Job it makes ready can not be signed. -/
def Accepts (rules : CoreRules) (s : StoreState) (lease : LeaseRow) (path : JobPath)
    (request : JobCompletion) (result : Except StoreError (CompletionDisposition × StoreState)) :
    Prop :=
  (SignsReadied rules s lease path request →
    ∃ outcome s' terminal, result = .ok (outcome, s') ∧
      Completes s s' lease path terminal outcome) ∧
  (¬ SignsReadied rules s lease path request → result = .error .unavailable)

/-- What the holder of a Lease can do after the events it delivered: append the batch that
    follows, complete the Job with the last number, and fail the assignment as long as it
    delivered none. -/
structure Executable (rules : CoreRules) (s : StoreState) (leaseId : LeaseId) : Prop where
  append : ∀ now request lease path registration, request.lease.leaseId = leaseId →
    CurrentHolder s now request.acceptedAt request.lease lease path registration →
    InOrderBatch rules s path (s.deliveredUnder leaseId).length request →
    ∃ s', s.appendJobEvents rules now request =
      .ok (⟨request.lastSequence, request.events.length⟩, s')
  complete : ∀ now request lease path registration, request.lease.leaseId = leaseId →
    CurrentHolder s now request.completedAt request.lease lease path registration →
    Completable rules s path registration request →
    request.finalSequence = some (s.deliveredUnder leaseId).length →
    Accepts rules s lease path request (s.completeJob rules now request)
  failAssignment : ∀ now request lease path registration, request.lease.leaseId = leaseId →
    CurrentHolder s now request.completedAt request.lease lease path registration →
    Completable rules s path registration request →
    request.validateAssignmentFailure = .ok () → s.deliveredUnder leaseId = [] →
    Accepts rules s lease path request (s.failAssignment rules now request)

/-- A completion at the durable cursor is accepted under either origin. -/
theorem Reachable.completeWithOrigin_accepts {now : Timestamp} {request : JobCompletion}
    {path : JobPath} {registration : RegistrationRow} (h : Reachable rules s)
    (hhold : CurrentHolder s now request.completedAt request.lease lease path registration)
    (hreq : Completable rules s path registration request)
    (hcurs : request.required = s.durableThrough lease.jobId) (origin : CompletionOrigin) :
    Accepts rules s lease path request (s.completeWithOrigin rules now request origin) := by
  constructor
  · intro hsigned
    obtain ⟨applied, s₁, terminal, finalSequence, -, -, hok, -, -, -, hcompls⟩ :=
      h.completeWithOrigin_isOk hhold hreq hcurs hsigned origin
    cases origin with
    | agent => exact ⟨_, _, terminal, hok, { hcompls with }⟩
    | assignmentDelivery => exact ⟨_, _, terminal, hok, { hcompls with }⟩
  · intro hunsig
    exact h.completeWithOrigin_unsigned hhold hreq hcurs hunsig origin

/-- Where the cursor counts what was delivered under the Lease, its holder can do
    all of it. -/
theorem Reachable.executable (h : Reachable rules s)
    (hcnt : ∀ lease, s.leases.find? leaseId = some lease → lease.state.isCurrent = true →
      s.durableThrough lease.jobId = (s.deliveredUnder leaseId).length) :
    Executable rules s leaseId := by
  constructor
  · intro now request lease path registration hid hhold hbatch
    rw [← hcnt lease (by rw [← hid]; exact hhold.found) hhold.current] at hbatch
    obtain ⟨s', hok, -⟩ := h.appendJobEvents_isOk hhold hbatch
    exact ⟨s', hok⟩
  · intro now request lease path registration hid hhold hreq hseq
    refine h.completeWithOrigin_accepts hhold hreq ?_ .agent
    rw [hcnt lease (by rw [← hid]; exact hhold.found) hhold.current,
      JobCompletion.required, hseq, Option.getD_some]
  · intro now request lease path registration hid hhold hreq hshape hnone
    have hseq : request.finalSequence = none := by
      rw [JobCompletion.validateAssignmentFailure, guard_eq_ok] at hshape
      simpa using fun h => hshape.1 (.inl h)
    have hcurs : request.required = s.durableThrough lease.jobId := by
      rw [hcnt lease (by rw [← hid]; exact hhold.found) hhold.current, hnone,
        JobCompletion.required, hseq]
      rfl
    obtain ⟨hsigned, hunsig⟩ := h.completeWithOrigin_accepts hhold hreq hcurs
      .assignmentDelivery
    have hfail : s.failAssignment rules now request =
        s.completeWithOrigin rules now request .assignmentDelivery := by
      unfold failAssignment
      rw [hshape]
      rfl
    rw [hfail]
    exact ⟨hsigned, hunsig⟩

/-- The Agent that was granted a Lease can execute its Job, whatever happens in the store,
    exactly when no event of the Job was durable before, as long as some completion id is
    left. -/
theorem Reachable.claim_executable_iff (h : Reachable rules s)
    (hclaim : s.claimReadyJob rules busy claim = .ok (outcome, s'))
    (hfresh : s.leases.find? claim.leaseId = none)
    (hgrant : s'.leases.find? claim.leaseId = some lease)
    (hleft : ∃ id, PrintableWithin 128 id ∧ s'.CompletionIdUnused id) :
    (∀ later, Executable rules (run rules s' later) claim.leaseId) ↔
      s.durableThrough lease.jobId = 0 := by
  have hreach : Reachable rules s' :=
    h.execute (.claim busy claim) (by rw [StoreState.execute, hclaim]; rfl)
  obtain ⟨hevs, hnone, path, registration, hhold⟩ := h.claim_grants hclaim hfresh hgrant
  have hcurs : s'.durableThrough lease.jobId = s.durableThrough lease.jobId := by
    rw [durableThrough, durableThrough, hevs]
  constructor
  · intro hexec
    by_contra hdur
    -- the Agent fails the assignment before it reported anything
    obtain ⟨id, hid, hunused⟩ := hleft
    let request : JobCompletion :=
      { completionId := id
        lease := claim.access
        finalSequence := none
        kind := .failed .infrastructure
        execution := none
        completedAt := claim.claimedAt }
    have hreq : Completable rules s' path registration request := by
      refine ⟨?_, ?_, ⟨hid, fun _ hsome => ?_, fun _ hsome => ?_⟩, hunused⟩
      · intro hkind
        cases hkind
      rotate_left
      · cases hsome
      · cases hsome
      cases hruntime : path.job.jobSpecTemplate.runtime with
      | legacy => rfl
      | current target => rfl
    have hrefused := hreach.completeWithOrigin_behind hhold hreq
      (by rw [hcurs]; exact Nat.pos_of_ne_zero hdur) .assignmentDelivery
    obtain ⟨hsigned, hunsig⟩ := (hexec []).failAssignment claim.claimedAt request lease path
      registration rfl hhold hreq rfl hnone
    have hfail : s'.failAssignment rules claim.claimedAt request = .error (.conflict .job) :=
      hrefused
    by_cases hsigns : SignsReadied rules s' lease path request
    · obtain ⟨_, _, _, hok, -⟩ := hsigned hsigns
      have hconflict := hfail.symm.trans hok
      cases hconflict
    · have hconflict := hfail.symm.trans (hunsig hsigns)
      cases hconflict
  · intro hzero later
    have hsince : DeliveredSince 0 claim.leaseId lease.jobId s' :=
      { linked := hreach.linked
        sound := hreach.sound
        numbered := hreach.numbered
        granted := ⟨lease, hgrant, rfl, fun _ => by rw [hcurs, hzero, hnone]; rfl⟩ }
    have hlater : DeliveredSince 0 claim.leaseId lease.jobId (run rules s' later) := hsince.run later
    obtain ⟨granted, hfound, hjob, hdelivered⟩ := hlater.granted
    refine (hreach.after later).executable fun row hrow hcur => ?_
    rw [hfound] at hrow
    cases hrow
    rw [hjob, hdelivered hcur, Nat.zero_add]

namespace Sample

def firstEvent (occurredAt : Nat) : DurableJobEvent := ⟨1, "agent", instant occurredAt, "{}"⟩

def firstBatch (lease : LeaseAccess) (acceptedAt : Nat) : AppendJobEvents where
  lease := lease
  events := [firstEvent acceptedAt]
  logChunks := []
  acceptedAt := instant acceptedAt

/-- The store before the only claim. -/
def ready : StoreState := run acceptAll .initial [.administer fleet, .materialize onlyBuild]

/-- A second Build of the Project, with a higher priority. -/
def urgentBuild : MaterializeBuild :=
  { onlyBuild with
    build := { onlyBuild.build with id := ⟨2⟩, priority := 5 }
    attemptId := ⟨2⟩
    jobs := [{ onlyJob with id := ⟨2⟩, jobSpecTemplate := ⟨⟨2⟩, "build", .legacy, "{}"⟩ }] }

/-- Of two queued Jobs the claim leases the one of the urgent Build. -/
theorem claim_in_order_ready :
    let s := step acceptAll ready (.materialize urgentBuild)
    ∃ outcome s' candidate other,
      s.claimReadyJob acceptAll (fun _ => false) onlyClaim = .ok (outcome, s') ∧
      (s'.leases.find? ⟨1⟩).map (·.jobId) = some ⟨2⟩ ∧
      candidate ∈ s.candidates ⟨1⟩ .fifo ∧ candidate.entry.jobId = ⟨2⟩ ∧
      other ∈ s.candidates ⟨1⟩ .fifo ∧ other.entry.jobId = ⟨1⟩ ∧
      s.claimsBefore .fifo candidate other = true := by
  intro s
  let epoch : Bigint := ⟨1, by decide⟩
  let queued := (s.readyQueue.rows.filter fun entry => ⟨1⟩ ∈ entry.allowedPools).filterMap
    s.candidate |>.filter s.withinConcurrencyLimits
  have hplaced : ∃ placed, s.placement onlyClaim epoch = some placed ∧
      placed.2.fairnessPolicy = .fifo ∧ ∀ id ∈ [(⟨1⟩ : JobId), ⟨2⟩],
        (s.takeJob (newLease onlyClaim epoch placed.1 placed.2 id)).toOption.isSome = true := by
    decide +kernel
  obtain ⟨⟨registration, pool⟩, hplace, hpol, htakes⟩ := hplaced
  have hids : queued.map (·.entry.jobId) = [⟨1⟩, ⟨2⟩] := by decide +kernel
  have hmem : ∀ policy candidate, candidate ∈ s.candidates ⟨1⟩ policy ↔ candidate ∈ queued :=
    fun _ _ => mem_mergeSort
  obtain ⟨first, rest, hqueue, hfirst, hrest⟩ := map_eq_cons_iff.mp hids
  obtain ⟨second, _, hrest', hsnd, -⟩ := map_eq_cons_iff.mp hrest
  have hmemFirst : first ∈ queued := by rw [hqueue]; exact mem_cons_self
  have hmemSecond : second ∈ queued := by rw [hqueue, hrest']; simp
  have hlate : ∀ a ∈ queued, ∀ b ∈ queued, a.entry.jobId = ⟨1⟩ → b.entry.jobId = ⟨2⟩ →
      s.claimsBefore .fifo a b = false := by decide +kernel
  have heligible : ∀ candidate,
      isEligible acceptAll (fun _ => false) onlyClaim registration pool candidate = true := by
    simp [isEligible, acceptAll]
  -- the claim takes some Job
  obtain ⟨taken, hselect⟩ := Option.isSome_iff_exists.mp
    (List.find?_isSome.mpr ⟨first, (hmem pool.fairnessPolicy _).mpr hmemFirst, heligible first⟩)
  have htaken : taken.entry.jobId ∈ [(⟨1⟩ : JobId), ⟨2⟩] := by
    rw [← hids]
    exact mem_map_of_mem ((hmem _ _).mp (mem_of_find?_eq_some hselect))
  obtain ⟨s₁, htake⟩ := Option.isSome_iff_exists.mp (htakes _ htaken)
  have hsel := (selectCandidate_eq acceptAll (fun _ => false) onlyClaim registration pool).trans
    hselect
  have hunused : ∀ record ∈ s.idempotency.claimReadyJob, record.key ≠ onlyClaim.leaseId := by
    decide +kernel
  obtain ⟨outcome, s', hclaim, hlses⟩ := claim_isOk rfl rfl
    (beginMutation_eq_none.mpr hunused) hplace ⟨rfl, rfl⟩ hsel (toOption_eq_some.mp htake)
  have hgrant : s'.leases.find? ⟨1⟩ =
      some (newLease onlyClaim epoch registration pool taken.entry.jobId) := by
    rw [hlses]
    exact ((takeJob_eq_ok (toOption_eq_some.mp htake)).2.2.2.1 _).trans (if_pos rfl)
  have hchg : s' ≠ s := by
    rintro rfl
    exact absurd (Option.isSome_of_eq_some hgrant) (by decide +kernel)
  obtain ⟨epoch', _, pool', candidate, hplace', hcand, -, hlease, hbef⟩ :=
    (claim_in_order hclaim).1 hchg
  obtain rfl : epoch = epoch' :=
    congrArg LeaseRow.registrationEpoch (Option.some.inj (hgrant.symm.trans hlease))
  obtain rfl : pool = pool' := congrArg Prod.snd (Option.some.inj (hplace.symm.trans hplace'))
  change pool.fairnessPolicy = .fifo at hpol
  rw [hpol] at hcand hbef
  have hinQueue := (hmem _ _).mp hcand
  have hids' : candidate.entry.jobId ∈ [(⟨1⟩ : JobId), ⟨2⟩] := by
    rw [← hids]
    exact mem_map_of_mem hinQueue
  -- the Job that was queued first does not stand before the urgent one
  have hurgent : candidate.entry.jobId = ⟨2⟩ := by
    refine (mem_pair.mp hids').resolve_left fun hone => ?_
    have hsecondBefore := hbef second ((hmem _ _).mpr hmemSecond) (heligible second)
      (by rintro rfl; rw [hone] at hsnd; cases hsnd)
    rw [hlate candidate hinQueue second hmemSecond hone hsnd] at hsecondBefore
    cases hsecondBefore
  refine ⟨outcome, s', candidate, first, hclaim, ?_, hcand, hurgent,
    (hmem _ _).mpr hmemFirst, hfirst, hbef first ((hmem _ _).mpr hmemFirst) (heligible first) ?_⟩
  · change (s'.leases.find? onlyClaim.leaseId).map (·.jobId) = _
    rw [hlease, Option.map_some]
    exact congrArg some hurgent
  · rintro rfl
    rw [hfirst] at hurgent
    cases hurgent

/-- After its first event the Agent of the only claim can still execute the Job. -/
theorem claimed_executable : Executable acceptAll
    (run acceptAll claimed [.append (instant 2) (firstBatch holder 2)]) ⟨1⟩ := by
  have hok : (ready.claimReadyJob acceptAll (fun _ => false) onlyClaim).toOption.isSome = true := by
    decide +kernel
  obtain ⟨⟨outcome, s'⟩, hsome⟩ := Option.isSome_iff_exists.mp hok
  have hclaim := toOption_eq_some.mp hsome
  have hclaimed : claimed = s' := by
    change step acceptAll ready (.claim (fun _ => false) onlyClaim) = s'
    rw [step, execute, hclaim]
    rfl
  have hlease : ∃ lease, claimed.leases.find? ⟨1⟩ = some lease ∧ lease.jobId = ⟨1⟩ := by
    decide +kernel
  obtain ⟨lease, hlease, hjob⟩ := hlease
  rw [hclaimed] at hlease ⊢
  have hleft : claimed.CompletionIdUnused "done" := by
    constructor
    · decide +kernel
    · intro origin
      cases origin <;> decide +kernel
  rw [hclaimed] at hleft
  exact (Reachable.claim_executable_iff ⟨_, rfl⟩ hclaim (by decide +kernel) hlease
    ⟨"done", by decide, hleft⟩).mpr (by rw [hjob]; decide +kernel) _

theorem one_lt_bigint : 1 < 2 ^ 63 := by decide

/-- Two Agents that are registered in the only Pool. -/
def pair : Administration where
  agents := fleet.agents.put ⟨⟨2⟩, ⟨1⟩, .online, true, 1⟩
  registrations :=
    fleet.registrations.put ⟨⟨2⟩, ⟨2⟩, ⟨1, one_lt_bigint⟩, ⟨[], "{}"⟩, 1, false, instant 900⟩
  pools := fleet.pools

/-- The second Agent claims the Job again at 13. -/
def secondClaim : JobClaim :=
  { onlyClaim with
    leaseId := ⟨2⟩
    fence := ⟨2⟩
    agentId := ⟨2⟩
    claimedAt := instant 13
    expiresAt := instant 23 }

def expiredClaim : ExpiredLeaseClaim := ⟨⟨1⟩, ⟨1⟩, "worker", instant 20⟩

/-- One event is durable when the Lease of the first Agent is lost. -/
def lostRun : List Transaction :=
  [.administer pair, .materialize onlyBuild, .claim (fun _ => false) onlyClaim,
    .append (instant 2) (firstBatch holder 2),
    .claimExpired (fun _ => false) ⟨"worker", instant 11, instant 20, 1⟩]

def requeuedRun : List Transaction :=
  lostRun ++ [.recover ⟨expiredClaim, instant 12⟩, .claim (fun _ => false) secondClaim]

/-- A requeued Job whose second Agent is refused everything: its first event, a
    failure of its assignment, and a completion that counts no events. -/
theorem requeued_refused : ((run acceptAll .initial lostRun).recoverExpiredLease acceptAll
      ⟨expiredClaim, instant 12⟩).toOption.map (·.1.action) = some .requeued ∧
    ((run acceptAll .initial requeuedRun).leases.find? ⟨2⟩).map
      (fun lease => (lease.jobId, lease.state)) = some (⟨1⟩, .active) ∧
    (run acceptAll .initial requeuedRun).appendJobEvents acceptAll (instant 14)
      (firstBatch secondClaim.access 14) = .error (.conflict .job) ∧
    (run acceptAll .initial requeuedRun).failAssignment acceptAll (instant 14)
      (completion secondClaim.access (.failed .infrastructure) 14) = .error (.conflict .job) ∧
    (run acceptAll .initial requeuedRun).completeJob acceptAll (instant 14)
      (completion secondClaim.access .succeeded 14) = .error (.conflict .job) :=
  ⟨by decide +kernel, by decide +kernel, errorOf_eq_some.mp (by decide +kernel),
    errorOf_eq_some.mp (by decide +kernel), errorOf_eq_some.mp (by decide +kernel)⟩

end Sample

end StoreState

end OctaCity.Store
