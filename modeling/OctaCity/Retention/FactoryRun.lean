/-
  OctaCity.Retention.FactoryRun

  Retention of Factory Runs (`factory_retention.rs`): a worker claims the work of
  an expired terminal Run and advances it pass by pass. A pass hides the Run and
  releases a page of its artifact references; when none is left it deletes a page
  of the Run's rows instead.
-/
import OctaCity.Lib.Result
import OctaCity.Lib.Table
import OctaCity.Retention.FactoryRows

namespace OctaCity.Retention

open Domain Lib
open Factory (FactoryRunId)

/-! ## Rows and requests -/

structure WorkerOwner where
  name : String
  deriving DecidableEq

/-- Exclusive ownership of a work row until a deadline. -/
structure WorkClaim where
  owner : WorkerOwner
  expiresAt : Timestamp
  deriving DecidableEq

inductive FactoryRunState
  | admitted
  | running
  | waiting
  | cancelled
  | completed

def FactoryRunState.isTerminal : FactoryRunState → Bool
  | cancelled | completed => true
  | admitted | running | waiting => false

structure FactoryRunRow where
  id : FactoryRunId
  state : FactoryRunState
  visible : Bool
  hiddenAt : Option Timestamp

inductive FactoryRetentionPhase
  | pending
  | hidden
  | metadata
  | completed
  | deadLetter
  deriving DecidableEq

/-- A row of `factory_retention_work`. -/
structure FactoryRetentionWork where
  runId : FactoryRunId
  phase : FactoryRetentionPhase
  availableAt : Timestamp
  attemptCount : Nat
  claim : Option WorkClaim
  completedAt : Option Timestamp

def maxFactoryRetentionCleanupBatchSize : Nat := 64

/-- A page size that `AdvanceFactoryRetentionWork::validate` accepts. -/
structure PageLimit where
  value : Nat
  positive : 0 < value
  bounded : value ≤ maxFactoryRetentionCleanupBatchSize

structure AdvanceFactoryRetentionWork where
  runId : FactoryRunId
  owner : WorkerOwner
  observedAt : Timestamp
  pageLimit : PageLimit

structure FactoryRetentionPassOutcome where
  releasedReferences : Nat
  deletedRecords : Nat
  completed : Bool

inductive FactoryRetentionError
  | conflict
  | notFound
  | unavailable

/-- The Factory tables that retention reads and writes. -/
structure FactoryDb where
  runs : Table FactoryRunRow.id
  work : Table FactoryRetentionWork.runId
  /-- The rows the Runs own, in physical order. -/
  rows : List FactoryRow
  /-- `released_at` of the artifact references. -/
  releasedAt : FactoryRow → Option Timestamp

def FactoryRunRow.hide (observedAt : Timestamp) (row : FactoryRunRow) : FactoryRunRow :=
  { row with
    visible := false
    hiddenAt := row.hiddenAt.or (some observedAt) }

@[simp] theorem FactoryRunRow.hide_id (observedAt : Timestamp) (row : FactoryRunRow) :
    (row.hide observedAt).id = row.id := rfl

namespace FactoryRetentionWork

def acquire (claim : WorkClaim) (work : FactoryRetentionWork) : FactoryRetentionWork :=
  { work with
    claim := some claim
    attemptCount := work.attemptCount + 1 }

@[simp] theorem acquire_runId (claim : WorkClaim) (work : FactoryRetentionWork) :
    (work.acquire claim).runId = work.runId := rfl

@[simp] theorem acquire_phase (claim : WorkClaim) (work : FactoryRetentionWork) :
    (work.acquire claim).phase = work.phase := rfl

def enter (phase : FactoryRetentionPhase) (work : FactoryRetentionWork) : FactoryRetentionWork :=
  { work with phase := phase }

@[simp] theorem enter_runId (phase : FactoryRetentionPhase) (work : FactoryRetentionWork) :
    (work.enter phase).runId = work.runId := rfl

/-- Gives the claim back for another pass. -/
def yield (observedAt : Timestamp) (work : FactoryRetentionWork) : FactoryRetentionWork :=
  { work with
    availableAt := observedAt
    claim := none }

@[simp] theorem yield_runId (observedAt : Timestamp) (work : FactoryRetentionWork) :
    (work.yield observedAt).runId = work.runId := rfl

def complete (observedAt : Timestamp) (work : FactoryRetentionWork) : FactoryRetentionWork :=
  { work with
    phase := .completed
    completedAt := some observedAt
    claim := none }

@[simp] theorem complete_runId (observedAt : Timestamp) (work : FactoryRetentionWork) :
    (work.complete observedAt).runId = work.runId := rfl

end FactoryRetentionWork

namespace FactoryDb

variable (held : FactoryRunId → Timestamp → Bool) (s : FactoryDb)

/-! ## Claiming and advancing -/

/-- Whether the work of a Run can be claimed; `held` tells whether a hold of a
    Build of the Run is active. -/
def isClaimable (observedAt : Timestamp) (work : FactoryRetentionWork) : Bool :=
  match s.runs.find? work.runId with
  | none => false
  | some run =>
    work.completedAt = none ∧ work.phase ≠ .deadLetter ∧
      (run.visible ∨ work.phase = .hidden ∨ work.phase = .metadata) ∧ run.state.isTerminal ∧
      work.availableAt ≤ observedAt ∧ (∀ claim ∈ work.claim, claim.expiresAt ≤ observedAt) ∧
      ¬ held work.runId observedAt

/-- `claim`, for the work of one Run. -/
def claimRun (run : FactoryRunId) (claim : WorkClaim) (observedAt : Timestamp) : FactoryDb :=
  { s with
    work := s.work.updateWhere (fun work => work.runId = run ∧ s.isClaimable held observedAt work)
      (.acquire claim) (FactoryRetentionWork.acquire_runId claim) }

def lockEligibleWork (request : AdvanceFactoryRetentionWork) : Except FactoryRetentionError Unit :=
  match s.work.find? request.runId, s.runs.find? request.runId with
  | some work, some run =>
    if (∃ claim ∈ work.claim, claim.owner = request.owner ∧ request.observedAt < claim.expiresAt) ∧
        work.completedAt = none then
      if run.state.isTerminal ∧ ¬ held request.runId request.observedAt then .ok ()
      else .error .conflict
    else .error .notFound
  | _, _ => .error .notFound

def hideRun (run : FactoryRunId) (observedAt : Timestamp) : FactoryDb :=
  { s with
    runs := s.runs.updateWhere (fun row => row.id = run ∧ row.visible) (.hide observedAt)
      (FactoryRunRow.hide_id observedAt) }

/-- Moves the work of a Run from one phase to the next. -/
def enterPhase (run : FactoryRunId) (current next : FactoryRetentionPhase) : FactoryDb :=
  { s with
    work := s.work.updateWhere (fun work => work.runId = run ∧ work.phase = current) (.enter next)
      (FactoryRetentionWork.enter_runId next) }

/-- Whether a row is an unreleased artifact reference of a Run. -/
def isLiveReference (run : FactoryRunId) (row : FactoryRow) : Bool :=
  row.table = .artifactReferences ∧ row.runId = run ∧ s.releasedAt row = none

/-- The next unreleased references of a Run. -/
def liveReferencePage (run : FactoryRunId) (limit : PageLimit) : List FactoryRow :=
  ((s.rows.filter (s.isLiveReference run)).mergeSort fun a b => a.referenceOrder ≤ b.referenceOrder).take
    limit.value

def release (references : List FactoryRow) (observedAt : Timestamp) : FactoryDb :=
  { s with
    releasedAt := fun row => if row ∈ references then some observedAt else s.releasedAt row }

/-- Whether references are unreleased or execution inputs still stored. -/
def remaining (run : FactoryRunId) : Bool :=
  s.rows.any (s.isLiveReference run) ∨ s.rows.any fun row => row.runId = run ∧ row.isStoredInput

def yieldWork (run : FactoryRunId) (observedAt : Timestamp) : FactoryDb :=
  { s with
    work := s.work.updateWhere (fun work => work.runId = run) (.yield observedAt)
      (FactoryRetentionWork.yield_runId observedAt) }

def completeWork (run : FactoryRunId) (observedAt : Timestamp) : FactoryDb :=
  { s with
    work := s.work.updateWhere (fun work => work.runId = run) (.complete observedAt)
      (FactoryRetentionWork.complete_runId observedAt) }

/-- The rows after `delete_metadata_page`; a violated foreign key is reported as
    an unavailable store. -/
def deleteMetadataPage (run : FactoryRunId) (limit : PageLimit) :
    Except FactoryRetentionError (List FactoryRow × Nat) :=
  okOr (deletePass FactoryRow.refers limit.value (deleteSteps run) s.rows) .unavailable

/-- `advance`: a failed transaction is rolled back. -/
def advance (request : AdvanceFactoryRetentionWork) :
    Except FactoryRetentionError (FactoryDb × FactoryRetentionPassOutcome) := do
  s.lockEligibleWork held request
  let s := (s.hideRun request.runId request.observedAt).enterPhase request.runId .pending .hidden
  let references := s.liveReferencePage request.runId request.pageLimit
  let s := s.release references request.observedAt
  if s.remaining request.runId then
    .ok (s.yieldWork request.runId request.observedAt, ⟨references.length, 0, false⟩)
  else
    let s := s.enterPhase request.runId .hidden .metadata
    let (rows, deleted) ← s.deleteMetadataPage request.runId request.pageLimit
    let s := { s with rows := rows }
    if deleted = 0 then
      .ok (s.completeWork request.runId request.observedAt, ⟨references.length, 0, true⟩)
    else
      .ok (s.yieldWork request.runId request.observedAt, ⟨references.length, deleted, false⟩)

end FactoryDb

end OctaCity.Retention
