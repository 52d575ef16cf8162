/-
  OctaCity.Store.ClaimProtocol

  A claim as the statements it executes one after the other (`job_claim.rs`),
  while other claims and transactions commit in between.

  The store holds what is committed, and every statement of a claim reads the
  store of its moment.  A claim waits for the advisory lock of its Pool and for
  the row of its Agent; the queue row of a candidate and the locks of its Project
  and its Build Configuration are only tried.  Everything is held until the
  claim commits or rolls back.  Lock keys do not collide.
-/
import OctaCity.Store.Transaction

namespace OctaCity.Store

open Domain Job Lib

/-- What a claim can hold. -/
inductive ClaimLock
  | pool (id : PoolId)
  | agent (id : AgentId)
  | queueEntry (id : JobId)
  | project (id : ProjectId)
  | configuration (id : BuildConfigurationId)
  deriving DecidableEq

/-- The registration and the Pool version a claim read. -/
structure ClaimPlacement where
  registration : RegistrationRow
  pool : PoolRow

/-- How far a claim got; `rest` is what is left of the candidate page. -/
inductive ClaimPhase
  | begun
  | entered
  | placed (placement : ClaimPlacement)
  | scanning (placement : ClaimPlacement) (page : List Candidate)
  | rowLocked (placement : ClaimPlacement) (candidate : Candidate) (rest : List Candidate)
  | projectLocked (placement : ClaimPlacement) (candidate : Candidate) (rest : List Candidate)
  | scopesLocked (placement : ClaimPlacement) (candidate : Candidate) (rest : List Candidate)
  | selected (placement : ClaimPlacement) (candidate : Candidate)
  | inserted (placement : ClaimPlacement) (candidate : Candidate)

/-- One running claim. -/
structure ClaimProcess where
  id : Nat
  request : JobClaim
  epoch : Bigint
  locks : List ClaimLock
  phase : ClaimPhase

/-- The committed store and the claims that have not ended. -/
structure ClaimSystem where
  store : StoreState
  claims : Table ClaimProcess.id

namespace ClaimSystem

variable (σ : ClaimSystem)

def initial : ClaimSystem := ⟨.initial, .empty⟩

/-- Whether no other claim holds the lock. -/
def isFree (process : ClaimProcess) (lock : ClaimLock) : Bool :=
  σ.claims.rows.all fun other => other.id = process.id ∨ lock ∉ other.locks

def update (process : ClaimProcess) : ClaimSystem := { σ with claims := σ.claims.put process }

/-- Ends a claim and releases what it holds. -/
def finish (process : ClaimProcess) : ClaimSystem :=
  { σ with claims := σ.claims.erase process.id }

/-! ## Statements -/

def pageSize : Nat := 64

/-- Reads the registration and counts the current Leases of the Pool under its
    lock; the Agent row is locked with them. -/
def place (rules : CoreRules) (process : ClaimProcess) : Option ClaimSystem :=
  match σ.store.placement process.request process.epoch with
  | none => some (σ.finish process)
  | some (registration, pool) =>
    if !σ.isFree process (.agent process.request.agentId) then none
    else if !rules.validateSnapshot process.request.snapshot registration.inventory ∨
        process.request.snapshot.activeJob.isSome then some (σ.finish process)
    else
      some (σ.update { process with
        locks := .agent process.request.agentId :: process.locks
        phase := .placed ⟨registration, pool⟩ })

/-- Reads the page of candidates that follows the first `start` ones. -/
def readPage (process : ClaimProcess) (placement : ClaimPlacement) (start : Nat) : ClaimSystem :=
  σ.update { process with
    phase := .scanning placement
      (((σ.store.candidates process.request.poolId placement.pool.fairnessPolicy).drop start).take
        pageSize) }

/-- `FOR UPDATE SKIP LOCKED` on the queue row of a permitted, compatible candidate. -/
def tryRow (rules : CoreRules) (process : ClaimProcess) (placement : ClaimPlacement)
    (candidate : Candidate) (rest : List Candidate) : ClaimSystem :=
  let lock := ClaimLock.queueEntry candidate.entry.jobId
  if rules.permitsRuntime placement.pool.admissionPolicy
        candidate.path.job.jobSpecTemplate.runtime ∧
      rules.isCompatibleWithContract placement.registration.inventory process.request.snapshot
        candidate.path.job.requirements candidate.path.job.jobSpecTemplate
        placement.registration.executionContractVersion ∧
      σ.store.readyQueue.contains candidate.entry.jobId ∧ σ.isFree process lock then
    σ.update { process with
      locks := lock :: process.locks
      phase := .rowLocked placement candidate rest }
  else σ.update { process with phase := .scanning placement rest }

/-- `pg_try_advisory_xact_lock`: a busy scope passes over the candidate. -/
def tryScope (process : ClaimProcess) (lock : ClaimLock) (acquired busy : ClaimPhase) : ClaimSystem :=
  if σ.isFree process lock then
    σ.update { process with locks := lock :: process.locks, phase := acquired }
  else σ.update { process with phase := busy }

/-- Counts the current Leases of the scopes again; a limit of zero is an error. -/
def recount (process : ClaimProcess) (placement : ClaimPlacement) (candidate : Candidate)
    (rest : List Candidate) : ClaimSystem :=
  if candidate.path.build.projectJobConcurrencyLimit = 0 ∨
      candidate.entry.configuration.jobConcurrencyLimit = 0 then σ.finish process
  else if σ.store.withinConcurrencyLimits candidate then
    σ.update { process with phase := .selected placement candidate }
  else σ.update { process with phase := .scanning placement rest }

/-- The Lease a claim inserts. -/
def leaseOf (process : ClaimProcess) (placement : ClaimPlacement) (candidate : Candidate) :
    LeaseRow :=
  StoreState.newLease process.request process.epoch placement.registration placement.pool
    candidate.entry.jobId

/-- Commits the Lease with its record, or rolls everything back. -/
def commit (process : ClaimProcess) (placement : ClaimPlacement) (candidate : Candidate) :
    ClaimSystem :=
  match σ.store.takeJob (leaseOf process placement candidate) with
  | .error _ => σ.finish process
  | .ok store =>
    let stored : StoredClaim :=
      { jobId := candidate.entry.jobId
        attempt := candidate.path.attempt.attemptNumber
        signedJobSpec := candidate.signedJobSpec
        claimedAt := process.request.claimedAt
        expiresAt := process.request.expiresAt }
    { σ.finish process with
      store := { store with
        idempotency.claimReadyJob :=
          commitMutation store.idempotency.claimReadyJob process.request.leaseId
            process.request.fingerprint stored } }

/-- The next statement of a claim; `start` is where a page read continues.  A
    claim that waits for a lock has none. -/
def advance (rules : CoreRules) (process : ClaimProcess) (start : Nat) : Option ClaimSystem :=
  match process.phase with
  | .begun =>
    if σ.isFree process (.pool process.request.poolId) then
      some (σ.update { process with
        locks := .pool process.request.poolId :: process.locks
        phase := .entered })
    else none
  | .entered => σ.place rules process
  | .placed placement => some (σ.readPage process placement start)
  | .scanning placement [] => some (σ.readPage process placement start)
  | .scanning placement (candidate :: rest) =>
    some (σ.tryRow rules process placement candidate rest)
  | .rowLocked placement candidate rest =>
    some (σ.tryScope process (.project candidate.entry.projectId)
      (.projectLocked placement candidate rest) (.scanning placement rest))
  | .projectLocked placement candidate rest =>
    some (σ.tryScope process (.configuration candidate.entry.configuration.id)
      (.scopesLocked placement candidate rest) (.scanning placement rest))
  | .scopesLocked placement candidate rest => some (σ.recount process placement candidate rest)
  | .selected placement candidate =>
    some (σ.update { process with phase := .inserted placement candidate })
  | .inserted placement candidate => some (σ.commit process placement candidate)

/-! ## Runs -/

/-- Whether a transaction leaves the queue rows alone that claims have locked. -/
def respectsRows (store : StoreState) : Bool :=
  σ.claims.rows.all fun process => process.locks.all fun lock =>
    match lock with
    | .queueEntry jobId => σ.store.readyQueue.contains jobId → store.readyQueue.contains jobId
    | _ => true

/-- One step: a claim begins, executes its next statement or rolls back, or
    another transaction commits. -/
inductive ClaimStep (rules : CoreRules) (σ : ClaimSystem) : ClaimSystem → Prop
  | begin (id : Nat) (request : JobClaim) (epoch : Bigint)
      (hid : σ.claims.contains id = false) (hvalid : request.validate = .ok ())
      (hepoch : number request.registrationEpoch .claimReadyJob = .ok epoch) :
      ClaimStep rules σ (σ.update ⟨id, request, epoch, [], .begun⟩)
  | advance (process : ClaimProcess) (start : Nat) (σ' : ClaimSystem)
      (hproc : process ∈ σ.claims.rows) (hadv : σ.advance rules process start = some σ') :
      ClaimStep rules σ σ'
  | rollback (process : ClaimProcess) (hproc : process ∈ σ.claims.rows) :
      ClaimStep rules σ (σ.finish process)
  | other (transaction : Transaction) (hother : transaction.isClaim = false)
      (hrows : σ.respectsRows (σ.store.step rules transaction) = true) :
      ClaimStep rules σ { σ with store := σ.store.step rules transaction }

/-- The systems any interleaving leads to. -/
inductive Reachable (rules : CoreRules) : ClaimSystem → Prop
  | initial : Reachable rules .initial
  | step {σ σ' : ClaimSystem} (hσ : Reachable rules σ) (hstep : ClaimStep rules σ σ') :
      Reachable rules σ'

end ClaimSystem

end OctaCity.Store
