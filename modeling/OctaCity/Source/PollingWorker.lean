/-
  OctaCity.Source.PollingWorker

  The source workers of one target (`runtime/sources/worker` and
  `source_scan_schedule`): each claims the scan, drains or polls it, and saves
  the schedule its result asks for.  Workers of several replicas and the sweep of
  expired pages work on the same row.
-/
import OctaCity.Retention.ResultWorker
import OctaCity.Source.Polling
import OctaCity.Source.Store

namespace OctaCity.Source

open Domain Lib
open Retention (DurableRetryPolicy)

/-! ## Schedules and rows -/

/-- `retry_not_before`: a remote lower bound cannot be shortened. -/
def retryNotBefore (retry : DurableRetryPolicy) (attempt : Nat) (failedAt : Timestamp)
    (notBefore : Option Timestamp) : Option Timestamp :=
  (retry.retryAt attempt failedAt).map fun local_ => max local_ (notBefore.getD local_)

/-- A retained input may wait for its exact legacy policy. -/
def ApplicationError.awaitsLegacyPolicy : ApplicationError → Bool
  | .factoryValidation codes => "unmapped_legacy_policy" ∈ codes
  | _ => false

/-- The failure class of an error and the provider's retry hint. -/
def ApplicationError.classify : ApplicationError → WorkSourceFailure × Option Nat
  | .sourceDependency class_ retryAfterMillis => (class_, retryAfterMillis)
  | .factoryValidation codes =>
    if "launch_policy_denied" ∈ codes then (.policyDenied, none)
    else if "unmapped_legacy_policy" ∈ codes then (.unavailable, none)
    else (.invalidConfiguration, none)
  | .capabilityUnavailable => (.unavailable, none)
  | .store .unavailable => (.transient, none)
  | .store (.conflict true) => (.admissionCapacity, none)
  | .store _ => (.conflict, none)
  | .invalid => (.invalidConfiguration, none)
  | .other => (.invalidConfiguration, none)

/-- Failures that do not spend a dependency attempt. -/
def WorkSourceFailure.isNeutral : WorkSourceFailure → Bool
  | .cancelled | .admissionCapacity | .retentionPending | .policyDenied => true
  | _ => false

/-- Failures that need an operator. -/
def WorkSourceFailure.isFinal : WorkSourceFailure → Bool
  | .invalidConfiguration | .protocolFault | .conflict | .policyDenied => true
  | _ => false

def sourceScanSchedule (previous : Option WorkSourceSchedule) (at_ : Timestamp) (interval : Nat)
    (retry : DurableRetryPolicy) (error : Option ApplicationError) :
    Except ApplicationError WorkSourceSchedule :=
  if interval = 0 then .error .invalid
  else
    match error with
    | none => do
      let retryAt ← addMillis at_ interval
      .ok { retryAt, attempts := 0, failure := none, exhausted := false }
    | some error => do
      let (class_, hint) := error.classify
      let spent := previous.elim 0 (·.attempts)
      let neutral := error.awaitsLegacyPolicy || class_.isNeutral
      let attempts := if neutral then spent else min (spent + 1) 65535
      let earliest ←
        match hint with
        | none => .ok none
        | some millis => (addMillis at_ millis).map some
      let next ←
        if neutral then (addMillis at_ interval).map some
        else .ok (retryNotBefore retry attempts at_ earliest)
      .ok
        { retryAt := next.getD at_, attempts, failure := some class_
          exhausted := next.isNone || class_.isFinal }

/-- `lock_claim`: the row, if it is still under the claim. -/
def lockRow (row : Option WorkSourceScan) (claim : WorkSourceScanClaim) (now : Timestamp) :
    Except ApplicationError WorkSourceScan := do
  let scan ← okOr row sourceConflict
  if scan.claim ≠ claim ∨ now < claim.acquiredAt ∨ claim.deadline ≤ now then
    .error sourceConflict
  else .ok scan

/-- `checkpoint_source_scan`; `blocking` says that an untouched preparation is pending. -/
def checkpointRow (row : Option WorkSourceScan) (claim : WorkSourceScanClaim) (now : Timestamp)
    (blocking : Bool) (expected : Option WorkSourceProgress) (progress : WorkSourceProgress) :
    Except ApplicationError WorkSourceScan := do
  if ¬ progress.isValid then .error sourceConflict
  else do
    let scan ← lockRow row claim now
    if blocking = true ∨ scan.progress ≠ expected then .error sourceConflict
    else .ok { scan with progress := some progress }

/-- `finish_source_scan`. -/
def finishRow (row : Option WorkSourceScan) (claim : WorkSourceScanClaim) (now : Timestamp)
    (schedule : WorkSourceSchedule) : Except ApplicationError WorkSourceScan := do
  let scan ← lockRow row claim now
  .ok { scan with schedule := some schedule, claim := { scan.claim with deadline := now } }

/-- Whether `expire_source_poll_pages` takes the position of a row. -/
def isSwept (scan : WorkSourceScan) (now : Timestamp) : Bool :=
  (scan.progress.bind (·.pendingPage)).any fun page => page.expiresAt ≤ now

def expireRow (row : Option WorkSourceScan) (now : Timestamp) : Option WorkSourceScan :=
  row.map fun scan => if isSwept scan now then { scan with progress := none } else scan

/-! ## Workers -/

/-- Where a pass of `poll_target` stands. -/
inductive WorkerStage
  /-- Claimed; retained preparations are drained first. -/
  | preparing (progress : Option WorkSourceProgress)
  | polling (run : PollingRun)
  /-- The pass is over, with its error. -/
  | ended (error : Option ApplicationError)

/-- The invocation of a polling stage. -/
def WorkerStage.run? : WorkerStage → Option PollingRun
  | .polling run => some run
  | _ => none

structure SourceWorker where
  claim : WorkSourceScanClaim
  /-- The schedule at the claim. -/
  previous : Option WorkSourceSchedule
  /-- The latest reading of its clock. -/
  clock : Timestamp
  stage : WorkerStage

/-- One step of a pass: a read, settlement or store call that answers, or the end of its time. -/
inductive WorkerEvent
  /-- The preparations used the whole budget, or were a full untouched page. -/
  | drained (now : Timestamp)
  | start (policy : SourcePollingPolicy) (now : Timestamp)
  | loop (checkedAt advancedAt : Timestamp)
  | read (page : SourcePollingPage) (readAt : Timestamp)
  | settle (expiryAt checkedAt : Timestamp)
  | cover (coveredAt : Timestamp)
  | save (savedAt : Timestamp) (blocking : Bool)
  /-- `session.complete()` of a Factory session is never true. -/
  | next
  /-- Shutdown. What the pass still does in its grace comes before the event, as for `timeout`. -/
  | cancel
  /-- The pass outlives `claim_lifetime - 2 * cancellation_grace`. -/
  | timeout

/-- The clock readings of an event, in order. -/
def WorkerEvent.readings : WorkerEvent → List Timestamp
  | .drained now => [now]
  | .start _ now => [now]
  | .loop checkedAt advancedAt => [checkedAt, advancedAt]
  | .read _ readAt => [readAt]
  | .settle expiryAt checkedAt => [expiryAt, checkedAt]
  | .cover coveredAt => [coveredAt]
  | .save savedAt _ => [savedAt]
  | .next | .cancel | .timeout => []

/-- Whether a clock that stood at an instant can show the readings of an event. -/
def WorkerEvent.follows (event : WorkerEvent) (clock : Timestamp) : Bool :=
  (clock :: event.readings).IsChain (· ≤ ·)

def WorkerEvent.clockAfter (event : WorkerEvent) (clock : Timestamp) : Timestamp :=
  event.readings.getLastD clock

variable (digest : PassDigest) (encode : WorkSourceScanTarget → List UInt8)

def WorkSourceScanClaim.lease (claim : WorkSourceScanClaim) : SourcePollingLease :=
  { projectId := claim.projectId, target := encode claim.target
    acquiredAt := claim.acquiredAt, deadline := claim.deadline }

/-- The pass goes on with the driver, or ends with its error. -/
def WorkerStage.ofResult : Except ApplicationError PollingRun → WorkerStage
  | .ok run => .polling run
  | .error error => .ended (some error)

/-- The driver's part of a step. -/
def pollStep (run : PollingRun) : WorkerEvent → WorkerStage
  | .loop checkedAt advancedAt =>
    if run.saving = false ∧ run.phase = .loop then
      match run.loop digest checkedAt advancedAt with
      | .ok none => .ended none
      | .ok (some run) => .polling run
      | .error error => .ended (some error)
    else .polling run
  | .read page readAt =>
    if run.saving = false ∧ run.phase = .read then .ofResult (run.accept page readAt)
    else .polling run
  | .settle expiryAt checkedAt =>
    if run.saving = false ∧ run.phase = .settle then
      .ofResult ((run.settle expiryAt checkedAt).map (·.1))
    else .polling run
  | .cover coveredAt =>
    if run.saving = false ∧ run.phase = .settled then .ofResult (run.cover coveredAt)
    else .polling run
  | .next =>
    if run.saving = false ∧ run.phase = .complete then .polling { run with phase := .loop }
    else .polling run
  | .cancel => .ended (some (.sourceDependency .cancelled none))
  | .timeout => .ended (some (.sourceDependency .timeout none))
  | _ => .polling run

/-- The save of a pass: the row and where the pass stands. -/
def saveStep (row : Option WorkSourceScan) (claim : WorkSourceScanClaim) (run : PollingRun)
    (savedAt : Timestamp) (blocking : Bool) : Option WorkSourceScan × WorkerStage :=
  if run.saving then
    match checkpointRow row claim savedAt blocking run.expected run.progress.toProgress with
    | .ok scan =>
      (some scan,
        .polling { run with expected := some run.progress.toProgress, saving := false })
    | .error error => (row, .ended (some error))
  else (row, .polling run)

/-- One step of a pass. -/
def SourceWorker.stageStep (row : Option WorkSourceScan) (worker : SourceWorker)
    (event : WorkerEvent) : Option WorkSourceScan × WorkerStage :=
  match worker.stage, event with
  | .preparing _, .drained _ => (row, .ended none)
  | .preparing progress, .start policy now =>
    (row, .ofResult (PollingRun.start digest policy (worker.claim.lease encode) progress now))
  | .preparing _, .cancel => (row, .ended (some (.sourceDependency .cancelled none)))
  | .preparing _, .timeout => (row, .ended (some (.sourceDependency .timeout none)))
  | .polling run, .save savedAt blocking => saveStep row worker.claim run savedAt blocking
  | .polling run, event => (row, pollStep digest run event)
  | stage, _ => (row, stage)

/-! ## One target -/

/-- A target: its row, the running workers by the fence of their claims, and every schedule
that was saved. -/
structure PollingTarget where
  row : Option WorkSourceScan
  workers : Nat → Option SourceWorker
  saved : List WorkSourceSchedule

inductive TargetEvent
  /-- `claim_source_scan` of some replica. -/
  | claim (request : ClaimWorkSourceScan)
  | work (fence : Nat) (event : WorkerEvent)
  /-- `source_scan_schedule` and `finish_source_scan`. -/
  | finish (fence : Nat) (at_ : Timestamp) (interval : Nat) (retry : DurableRetryPolicy)
  /-- The process of a worker is gone. -/
  | crash (fence : Nat)
  /-- `expire_source_poll_pages` of some replica. -/
  | sweep (now : Timestamp)

namespace PollingTarget

variable (σ : PollingTarget)

/-- The definition of the target does not change, so every claim is for the same target. -/
def claim (request : ClaimWorkSourceScan) : PollingTarget :=
  if σ.row.any fun scan => scan.claim.target ≠ request.target then σ
  else
    match nextSourceScan request σ.row with
    | .ok (some scan) =>
      { σ with
        row := some scan
        workers := Function.update σ.workers scan.claim.fence (some
          { claim := scan.claim, previous := scan.schedule, clock := request.now
            stage := .preparing scan.progress }) }
    | _ => σ

def work (fence : Nat) (event : WorkerEvent) : PollingTarget :=
  match σ.workers fence with
  | none => σ
  | some worker =>
    if event.follows worker.clock then
      let (row, stage) := worker.stageStep digest encode σ.row event
      { σ with
        row
        workers := Function.update σ.workers fence (some
          { worker with stage, clock := event.clockAfter worker.clock }) }
    else σ

/-- The end of `poll_target`; a conflict leaves the row to whoever owns it now. -/
def finish (fence : Nat) (at_ : Timestamp) (interval : Nat) (retry : DurableRetryPolicy) :
    PollingTarget :=
  match σ.workers fence with
  | none => σ
  | some worker =>
    match worker.stage with
    | .ended error =>
      if at_ < worker.clock then σ
      else
        let result := do
          let schedule ← sourceScanSchedule worker.previous at_ interval retry error
          let scan ← finishRow σ.row worker.claim at_ schedule
          .ok (scan, schedule)
        match result with
        | .ok (scan, schedule) =>
          { row := some scan, workers := Function.update σ.workers fence none
            saved := σ.saved ++ [schedule] }
        | .error _ => { σ with workers := Function.update σ.workers fence none }
    | _ => σ

def step : TargetEvent → PollingTarget
  | .claim request => σ.claim request
  | .work fence event => σ.work digest encode fence event
  | .finish fence at_ interval retry => σ.finish fence at_ interval retry
  | .crash fence => { σ with workers := Function.update σ.workers fence none }
  | .sweep now => { σ with row := expireRow σ.row now }

/-- A target that nobody has claimed yet. -/
def unclaimed : PollingTarget := ⟨none, fun _ => none, []⟩

def run (events : List TargetEvent) : PollingTarget :=
  events.foldl (step digest encode) unclaimed

end PollingTarget

end OctaCity.Source
