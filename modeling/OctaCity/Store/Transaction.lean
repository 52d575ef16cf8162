/-
  OctaCity.Store.Transaction

  The transactions of the Build store as one step function.  A transaction
  commits its last state or rolls everything back; the store starts empty and
  runs any sequence of them.

  Registration, enrollment, Agent settings and the creation of Pools are one
  transaction with a condition on what it may change, and so is the retention
  that hides the logs of a Build.
-/
import OctaCity.Store.Cancel
import OctaCity.Store.Claim
import OctaCity.Store.Completion

namespace OctaCity.Store

open Domain Lib

/-! ## Administration -/

/-- The tables after some operation on Agents, registrations and Pools. -/
structure Administration where
  agents : Table AgentRow.id
  registrations : Table RegistrationRow.id
  pools : Table PoolRow.id

def RegistrationRow.withRevoked (revoked : Bool) (row : RegistrationRow) : RegistrationRow :=
  { row with revoked }

/-- Agents stay, registrations stay and only become revoked, and every
    registration belongs to an Agent. -/
def Administration.isAllowed (change : Administration) (s : StoreState) : Bool :=
  (s.agents.rows.all fun row => change.agents.contains row.id) ∧
    (s.registrations.rows.all fun row =>
      change.registrations.find? row.id = some row ∨
        change.registrations.find? row.id = some (row.withRevoked true)) ∧
    change.registrations.rows.all fun row => change.agents.contains row.agentId

def BuildRow.withoutLogs (row : BuildRow) : BuildRow := { row with logsVisible := false }

theorem BuildRow.withoutLogs_id (row : BuildRow) : row.withoutLogs.id = row.id := rfl

namespace StoreState

variable (s : StoreState)

def administer (change : Administration) : StoreState :=
  { s with
    agents := change.agents
    registrations := change.registrations
    pools := change.pools }

def hideLogs (buildId : BuildId) : StoreState :=
  { s with builds := s.builds.updateWhere (fun row => row.id = buildId) BuildRow.withoutLogs
                      BuildRow.withoutLogs_id }

end StoreState

/-! ## Runs -/

inductive Transaction
  | materialize (request : MaterializeBuild)
  | retry (request : RetryBuild)
  | claim (busy : JobId → Bool) (request : JobClaim)
  | renew (now : Timestamp) (request : RenewLease)
  | append (now : Timestamp) (request : AppendJobEvents)
  | complete (now : Timestamp) (request : JobCompletion)
  | failAssignment (now : Timestamp) (request : JobCompletion)
  | cancel (owner : Except StoreError Unit) (observedAt : Timestamp) (request : CancelBuild)
  | drainAgent (request : DrainAgent)
  | publishPool (request : PublishAgentPoolVersion)
  | claimExpired (busy : LeaseId → Bool) (request : ClaimExpiredLeases)
  | recover (request : RecoverExpiredLease)
  | administer (change : Administration)
  | hideLogs (buildId : BuildId)

/-- The heartbeat and the two steps of the Lease-expiry worker. -/
def Transaction.isTimed : Transaction → Bool
  | .renew .. | .claimExpired .. | .recover .. => true
  | _ => false

/-- The one transaction that grants Leases. -/
def Transaction.isClaim : Transaction → Bool
  | .claim .. => true
  | _ => false

namespace StoreState

/-- The state a transaction commits, or the error it is rolled back with. -/
def execute (rules : CoreRules) (s : StoreState) : Transaction → Except StoreError StoreState
  | .materialize request => (s.materialize rules request).map (·.2)
  | .retry request => (s.retryBuild rules request).map (·.2)
  | .claim busy request => (s.claimReadyJob rules busy request).map (·.2)
  | .renew now request => (s.renewLease now request).map (·.2)
  | .append now request => (s.appendJobEvents rules now request).map (·.2)
  | .complete now request => (s.completeJob rules now request).map (·.2)
  | .failAssignment now request => (s.failAssignment rules now request).map (·.2)
  | .cancel owner observedAt request => (s.cancelBuild rules owner observedAt request).map (·.2)
  | .drainAgent request => (s.drainAgent request).map (·.2)
  | .publishPool request => (s.publishAgentPoolVersion rules request).map (·.2)
  | .claimExpired busy request => .ok (s.claimExpiredLeases busy request).2
  | .recover request => (s.recoverExpiredLease rules request).map (·.2)
  | .administer change => if change.isAllowed s then .ok (s.administer change) else .ok s
  | .hideLogs buildId => .ok (s.hideLogs buildId)

/-- One transaction; a failed one leaves the state unchanged. -/
def step (rules : CoreRules) (s : StoreState) (transaction : Transaction) : StoreState :=
  match s.execute rules transaction with
  | .ok s' => s'
  | .error _ => s

def run (rules : CoreRules) (s : StoreState) (transactions : List Transaction) : StoreState :=
  transactions.foldl (step rules) s

/-- The states the store can be in. -/
def Reachable (rules : CoreRules) (s : StoreState) : Prop :=
  ∃ transactions, run rules .initial transactions = s

/-! ## A small store -/

namespace Sample

/-- Rules that accept every document and sign every Job. -/
def acceptAll : CoreRules where
  validateTemplate _ := true
  validateRequirements _ := true
  encodedJobBytes _ := 0
  encodedEventBytes _ := 0
  validateSnapshot _ _ := true
  permitsRuntime _ _ := true
  isCompatibleWithContract _ _ _ _ _ := true
  satisfies _ _ := true
  validateDefinition _ := true
  cancellationOperation operation := operation ++ "/cancel"
  signReadyJobSpec template _ _ _ := some ⟨template.document⟩

/-- One of the first 1000 milliseconds. -/
def instant (unixMillis : Nat) : Timestamp :=
  ⟨min unixMillis 1000, supported_small unixMillis⟩

/-- One Agent that is registered in the only Pool. -/
def fleet : Administration where
  agents := ⟨[⟨⟨1⟩, ⟨1⟩, .online, true, 1⟩], by simp⟩
  registrations := ⟨[⟨⟨1⟩, ⟨1⟩, ⟨1, by decide⟩, ⟨[], "{}"⟩, 1, false, instant 900⟩], by simp⟩
  pools := ⟨[⟨⟨1⟩, 1, true, .accepting, "any", 1, .fifo, instant 0⟩], by simp⟩

def onlyJob : MaterializedJob where
  id := ⟨1⟩
  pipelineNodeId := "build"
  dependencies := []
  dependencyPolicy := .allSucceeded
  allowedPools := [⟨1⟩]
  requirements := "{}"
  jobSpecTemplate := ⟨⟨1⟩, "build", .legacy, "{}"⟩

/-- A Build with one Job, which is requeued twice before it fails. -/
def onlyBuild : MaterializeBuild where
  build := ⟨⟨1⟩, ⟨1⟩, ⟨⟨1⟩, 1, 1, 3, true⟩, 1, 0⟩
  factoryOrigin := none
  attemptId := ⟨1⟩
  jobs := [onlyJob]
  acceptedAt := instant 0

def onlyClaim : JobClaim where
  leaseId := ⟨1⟩
  fence := ⟨1⟩
  agentId := ⟨1⟩
  registrationEpoch := 1
  poolId := ⟨1⟩
  snapshot := ⟨none, "{}"⟩
  claimedAt := instant 1
  expiresAt := instant 10

def holder : LeaseAccess := ⟨⟨1⟩, ⟨1⟩, ⟨1⟩, 1⟩

def claimedRun : List Transaction :=
  [.administer fleet, .materialize onlyBuild, .claim (fun _ => false) onlyClaim]

/-- The store after the Agent claimed the Job. -/
def claimed : StoreState := run acceptAll .initial claimedRun

end Sample

end StoreState

end OctaCity.Store
