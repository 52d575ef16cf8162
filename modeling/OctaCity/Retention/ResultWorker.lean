/-
  OctaCity.Retention.ResultWorker

  The retention workers (`operations/retention.rs` of the application crate) as
  passes over claimed work, next to every other transaction on Build Results.

  A pass stands at its next call. Its adapter calls succeed or end it with an
  error; a pass that crashes is one that takes no further step.
-/
import OctaCity.Retention.ResultSteps

namespace OctaCity.Retention

open Domain Lib Store
open Factory (FactoryRunId NodeAttemptId FactoryDigest)

/-! ## Retry policy -/

structure DurableRetryPolicy where
  maxAttempts : Nat
  initialDelayMilliseconds : Nat
  maximumDelayMilliseconds : Nat
  attemptsPositive : 0 < maxAttempts
  delayPositive : 0 < initialDelayMilliseconds
  ordered : initialDelayMilliseconds ≤ maximumDelayMilliseconds

namespace DurableRetryPolicy

variable (policy : DurableRetryPolicy)

/-- The delay after a failed attempt; no delay passes the maximum. -/
def delay (attempt : Nat) : Nat :=
  min (policy.initialDelayMilliseconds * 2 ^ min (attempt - 1) 63) policy.maximumDelayMilliseconds

def retryAt (attempt : Nat) (failedAt : Timestamp) : Option Timestamp :=
  if policy.maxAttempts ≤ attempt then none
  else Timestamp.fromUnixMillis (failedAt.unixMillis + policy.delay attempt)

end DurableRetryPolicy

/-! ## Passes -/

/-- The failures of a pass that the worker records; a failed transaction ends the
    pass without a record. -/
inductive PassError
  | search
  | artifactBytes
  | logBytes
  | invalidArtifactObject
  | clockUnavailable
  deriving DecidableEq

namespace PassError

def code : PassError → String
  | search => "search_index"
  | artifactBytes => "artifact_store"
  | logBytes => "log_store"
  | invalidArtifactObject => "invalid_artifact_object"
  | clockUnavailable => "clock_unavailable"

def isRetryable (error : PassError) : Bool := error ≠ .invalidArtifactObject

end PassError

/-- Where a pass stands: before `prepare`, or before the first of the deletions
    that are left. -/
inductive PassStage
  | claimed
  | prepared (searchDeletion : Option DeleteLogSearchDocuments) (objects : List RetentionObject)
  deriving DecidableEq

structure RetentionPass where
  claim : RetentionWorkClaim
  stage : PassStage
  deriving DecidableEq

/-- Whether the next call of a pass can fail with an error. -/
def PassStage.mayRaise : PassStage → PassError → Bool
  | _, .clockUnavailable => true
  | .prepared (some _) _, .search => true
  | .prepared none (.log _ :: _), .logBytes => true
  | .prepared none (.output _ :: _), .artifactBytes => true
  | .prepared none (.output _ :: _), .invalidArtifactObject => true
  | _, _ => false

inductive ResultEvent
  | claim (request : ClaimRetentionWork) (locked : List RetentionWorkId)
  /-- The next transaction of a pass, with the page size if it is `prepare`. -/
  | call (pass : RetentionPass) (objectLimit : BatchLimit) (calledAt : Timestamp)
  | fail (pass : RetentionPass) (error : PassError) (failedAt : Timestamp)
  | placeHold (request : PlaceBuildResultHold)
  | releaseHold (request : ReleaseBuildResultHold)
  | beginUpload (request : BeginArtifactUpload)
  | verifyUpload (request : VerifyArtifactUpload) (result : Option ArtifactVerificationResult)
  | appendLogs (access : Except ResultError Unit) (origin : LogOrigin) (acceptedAt : Timestamp)
      (chunks : List LogChunkManifest)
  | insertBuild (build : NewBuild)
  | linkExecution (run : FactoryRunId) (id : FactoryDigest) (nodeAttempt : NodeAttemptId)
      (operation : FactoryDigest) (build : BuildId)
  | referenceArtifact (run : FactoryRunId) (artifact : ArtifactId) (role : FactoryArtifactRole)
      (expected : Option String)
  | advanceFactory (request : AdvanceFactoryRetentionWork)
  /-- Any other transaction on the Factory tables. -/
  | factory (next : FactoryDb)
  /-- Cleanup of the project text behind Builds starts. -/
  | startTextCleanup (build : BuildId)

/-- The Build Results, the passes in flight and, for each work row, how many passes
    ended in a recorded failure; the code keeps no such number. -/
structure RetentionSystem where
  db : ResultDb
  passes : List RetentionPass
  failures : RetentionWorkId → Nat

namespace RetentionSystem

variable (ids : DerivedIds) (policy : DurableRetryPolicy) (σ : RetentionSystem)

/-- The claims that a claim call returns start as many passes. -/
def claim (request : ClaimRetentionWork) (locked : List RetentionWorkId) : RetentionSystem :=
  match σ.db.claim request locked with
  | (db, .error _) => { σ with db }
  | (db, .ok claims) => { σ with db, passes := claims.map (⟨·, .claimed⟩) ++ σ.passes }

/-- The next transaction of a pass (`apply`), and where the pass stands after it. -/
def advance (pass : RetentionPass) (objectLimit : BatchLimit) (calledAt : Timestamp) :
    Except ResultError (ResultDb × Option PassStage) :=
  match pass.stage with
  | .claimed => do
    let (db, preparation) ←
      σ.db.prepare ids ⟨pass.claim.workId, pass.claim.owner, calledAt, objectLimit⟩
    .ok (db, some (.prepared preparation.searchDeletion preparation.objects))
  | .prepared (some _) objects => do
    let db ← σ.db.completeSearch pass.claim.workId pass.claim.owner calledAt
    .ok (db, some (.prepared none objects))
  | .prepared none (object :: rest) => do
    let db ← σ.db.completeObject pass.claim.workId pass.claim.owner object.identity calledAt
    .ok (db, some (.prepared none rest))
  | .prepared none [] => do
    let (db, _) ← σ.db.finishPass pass.claim.workId pass.claim.owner calledAt
    .ok (db, none)

/-- A pass goes on after its transaction; a failed one ends it. -/
def call (pass : RetentionPass) (objectLimit : BatchLimit) (calledAt : Timestamp) :
    RetentionSystem :=
  match σ.advance ids pass objectLimit calledAt with
  | .error _ => { σ with passes := σ.passes.erase pass }
  | .ok (db, none) => { σ with db, passes := σ.passes.erase pass }
  | .ok (db, some stage) =>
    { σ with db, passes := { pass with stage } :: σ.passes.erase pass }

/-- The request that records the failure of a pass. -/
def failure (pass : RetentionPass) (error : PassError) (failedAt : Timestamp) :
    FailRetentionWork where
  workId := pass.claim.workId
  owner := pass.claim.owner
  failedAt
  errorCode := error.code
  retryAt := if error.isRetryable then policy.retryAt pass.claim.attempt failedAt else none

/-- Whether the claim of a pass is still the one of its work row. -/
def isCurrent (pass : RetentionPass) (observedAt : Timestamp) : Bool :=
  (σ.db.work.find? pass.claim.workId).any fun work => work.isClaimedBy pass.claim.owner observedAt

/-- Ends a pass with an error and records the failure. -/
def fail (pass : RetentionPass) (error : PassError) (failedAt : Timestamp) : RetentionSystem :=
  match σ.db.fail (failure policy pass error failedAt) with
  | .error _ => { σ with passes := σ.passes.erase pass }
  | .ok db =>
    { db
      passes := σ.passes.erase pass
      failures := fun id =>
        if id = pass.claim.workId ∧ σ.isCurrent pass failedAt then σ.failures id + 1
        else σ.failures id }

/-- A transaction outside the passes; one that fails changes nothing. -/
def commit (result : Except ResultError ResultDb) : RetentionSystem :=
  match result with
  | .error _ => σ
  | .ok db => { σ with db }

/-- A step; one that is not enabled changes nothing. -/
def step : ResultEvent → RetentionSystem
  | .claim request locked => σ.claim request locked
  | .call pass objectLimit calledAt =>
    if pass ∈ σ.passes then σ.call ids pass objectLimit calledAt else σ
  | .fail pass error failedAt =>
    if pass ∈ σ.passes ∧ pass.stage.mayRaise error then σ.fail policy pass error failedAt else σ
  | .placeHold request => σ.commit (σ.db.placeHold request)
  | .releaseHold request => σ.commit (σ.db.releaseHold request)
  | .beginUpload request => σ.commit (σ.db.beginUpload request)
  | .verifyUpload request result => σ.commit (σ.db.changeVerification request result)
  | .appendLogs access origin acceptedAt chunks =>
    σ.commit (σ.db.persistLogChunks access origin acceptedAt chunks)
  | .insertBuild build => σ.commit (σ.db.insertBuild ids build)
  | .linkExecution run id nodeAttempt operation build =>
    { σ with db := σ.db.linkExecution run id nodeAttempt operation build }
  | .referenceArtifact run artifact role expected =>
    { σ with db := σ.db.referenceArtifact run artifact role expected }
  | .advanceFactory request =>
    match σ.db.advanceFactory request with
    | .error _ => σ
    | .ok (db, _) => { σ with db }
  | .factory next => { σ with db := { σ.db with factory := next } }
  | .startTextCleanup build =>
    { σ with
      db :=
        { σ.db with
          textCleanupStarted := fun other => other = build ∨ σ.db.textCleanupStarted other } }

def run (events : List ResultEvent) : RetentionSystem := events.foldl (step ids policy) σ

end RetentionSystem

end OctaCity.Retention
