/-
  OctaCity.Source.Scans

  Scan claims and covered positions (`factory_source.rs`, `factory_source_poll.rs`
  and `factory_source_worker.rs` of the store crate): acquiring a claim, proving
  one, and the bounds of a retained position.
-/
import OctaCity.Domain.Timestamp
import OctaCity.Source.Configuration

namespace OctaCity.Source

open Domain Lib
open Factory (FactoryDigest FactoryKey)

/-! ## Retained pages -/

/-- A JSON value by its canonical encoding. -/
structure JsonValue where
  encoded : String
  deriving DecidableEq

/-- The encoded length of one character of a JSON string. -/
def escapedSize (c : Char) : Nat :=
  if c = '"' ∨ c = '\\' ∨ c.val ∈ [8, 9, 10, 12, 13] then 2
  else if c.val < 32 then 6
  else c.utf8Size

def cursorSize : Option String → Nat
  | none => 4
  | some cursor => (cursor.toList.map escapedSize).sum + 2

/-- The length of a JSON array of encoded values. -/
def arraySize (values : List JsonValue) : Nat :=
  (values.map fun value => value.encoded.utf8ByteSize).sum + (values.length - 1) + 2

structure WorkSourcePendingPage where
  candidates : List JsonValue
  nextCursor : Option String
  expiresAt : Timestamp
  deriving DecidableEq

def WorkSourcePendingPage.encodedPayloadBytes (page : WorkSourcePendingPage) : Nat :=
  "\x7b\"candidates\":".utf8ByteSize + arraySize page.candidates + ",\"next_cursor\":".utf8ByteSize +
    cursorSize page.nextCursor + 1

/-- One suspended provider pass. -/
structure WorkSourcePollPass where
  scanId : FactoryDigest
  windowStart : Timestamp
  windowEnd : Timestamp
  continuation : Option String
  reconciliation : Bool
  finished : Bool
  deriving DecidableEq

structure WorkSourcePollingState where
  otherPass : Option WorkSourcePollPass
  reconciliationDueAt : Timestamp
  switchAfterPage : Bool
  scanId : FactoryDigest
  finished : Bool
  pendingPage : Option WorkSourcePendingPage
  deriving DecidableEq

/-- A covered position; `polling` is absent in historical documents. -/
structure WorkSourceProgress where
  polling : Option WorkSourcePollingState
  windowStart : Timestamp
  windowEnd : Timestamp
  continuation : Option String
  reconciliation : Bool
  deriving DecidableEq

def maxSourceInputBytes : Nat := 1048576
def maxSourcePollPageItems : Nat := 100
def maxSourcePollCursorBytes : Nat := 4096
def maxSourcePollPageBytes : Nat := 4 * maxSourceInputBytes
def maxSourceRetentionMillis : Nat := 2592000000

/-- `char::is_control`: the Unicode category Cc. -/
def isControl (c : Char) : Bool := c.val < 32 ∨ (127 ≤ c.val ∧ c.val < 160)

/-- `validate_source_cursor`, also the check of a continuation. -/
def isValidCursor (cursor : Option String) : Bool :=
  cursor.all fun value =>
    value ≠ "" ∧ value.utf8ByteSize ≤ maxSourcePollCursorBytes ∧ ¬ value.toList.any isControl

/-- The bounds of a retained page. -/
def WorkSourcePendingPage.isValid (page : WorkSourcePendingPage) : Bool :=
  isValidCursor page.nextCursor ∧ page.candidates.length ≤ maxSourcePollPageItems ∧
    page.encodedPayloadBytes ≤ maxSourcePollPageBytes ∧
    ∀ candidate ∈ page.candidates, candidate.encoded.utf8ByteSize ≤ maxSourceInputBytes

/-- `WorkSourcePollingState::validate`. -/
def WorkSourcePollingState.isValid (state : WorkSourcePollingState)
    (progress : WorkSourceProgress) : Bool :=
  ¬ (state.finished ∧ (state.pendingPage.isSome ∨ progress.continuation.isSome)) ∧
    (state.otherPass.all fun other =>
      other.reconciliation ≠ progress.reconciliation ∧ other.windowStart ≤ other.windowEnd ∧
        ¬ (other.finished ∧ other.continuation.isSome) ∧ isValidCursor other.continuation) ∧
    state.pendingPage.all (·.isValid)

/-- `WorkSourceProgress::validate`; every failure is the same conflict. -/
def WorkSourceProgress.isValid (progress : WorkSourceProgress) : Bool :=
  progress.windowStart ≤ progress.windowEnd ∧ isValidCursor progress.continuation ∧
    progress.polling.all (·.isValid progress)

/-- The pending page of a position. -/
def WorkSourceProgress.pendingPage (progress : WorkSourceProgress) :
    Option WorkSourcePendingPage :=
  progress.polling.bind (·.pendingPage)

/-! ## Claims -/

inductive WorkSourceFailure
  | unavailable
  | rateLimited
  | transient
  | timeout
  | cancelled
  | admissionCapacity
  | retentionPending
  | protocolFault
  | invalidConfiguration
  | policyDenied
  | conflict

structure WorkSourceSchedule where
  retryAt : Timestamp
  attempts : Nat
  failure : Option WorkSourceFailure
  exhausted : Bool

/-- Native identities of a ticket. -/
structure WorkSourceItem where
  resource : FactoryKey
  item : FactoryKey

structure WorkSourceSelectionRecord where
  item : WorkSourceItem
  matchingInputs : List Nat

inductive WorkSourceWaitReason
  | searching
  | missing
  | notAccepted
  | stale
  | inaccessible
  | incompatible
  | wrongIssue
  | wrongSubject
  | missingImplementationAcceptance
  deriving DecidableEq

structure WorkSourceWait where
  preparationId : FactoryDigest
  checkedAt : Timestamp
  reason : WorkSourceWaitReason

structure ClaimWorkSourceScan where
  projectId : Nat
  target : WorkSourceScanTarget
  owner : FactoryKey
  now : Timestamp
  /-- `until`. -/
  deadline : Timestamp

structure WorkSourceScanClaim where
  projectId : Nat
  target : WorkSourceScanTarget
  owner : FactoryKey
  fence : Nat
  acquiredAt : Timestamp
  /-- `until`. -/
  deadline : Timestamp
  deriving DecidableEq

structure WorkSourceScan where
  lastSelection : Option WorkSourceSelectionRecord
  lastWait : Option WorkSourceWait
  schedule : Option WorkSourceSchedule
  claim : WorkSourceScanClaim
  progress : Option WorkSourceProgress

/-- The order of scan identities: by kind, then by identity. -/
def WorkSourceScan.identity (scan : WorkSourceScan) : String ×ₗ Nat :=
  toLex scan.claim.target.identity

/-- The fence of the next claim. -/
def nextFence (current : Option WorkSourceScan) : Except SourceError Nat :=
  match current with
  | none => .ok 1
  | some scan =>
    if 2 ^ 64 ≤ scan.claim.fence + 1 then .error .conflict else .ok (scan.claim.fence + 1)

def nextSourceScan (request : ClaimWorkSourceScan) (current : Option WorkSourceScan) :
    Except SourceError (Option WorkSourceScan) :=
  let duration := request.deadline.unixMillis - request.now.unixMillis
  let same := current.filter fun scan => scan.claim.target = request.target
  if duration < 1 ∨ 300000 < duration then .error .conflict
  else if current.any fun scan => request.now < scan.claim.deadline then .ok none
  else if (same.bind (·.schedule)).any fun schedule =>
      schedule.exhausted ∨ request.now < schedule.retryAt then .ok none
  else do
    let fence ← nextFence current
    .ok (some {
      lastSelection := same.bind (·.lastSelection)
      lastWait := same.bind (·.lastWait)
      schedule := same.bind (·.schedule)
      claim :=
        { projectId := request.projectId, target := request.target, owner := request.owner, fence
          acquiredAt := request.now, deadline := request.deadline }
      progress := same.bind (·.progress) })

def requireSourceScan (current : WorkSourceScan) (claim : WorkSourceScanClaim) (now : Timestamp) :
    Except SourceError Unit :=
  if current.claim ≠ claim ∨ now < claim.acquiredAt ∨ claim.deadline ≤ now then .error .conflict
  else .ok ()

/-- `record_source_selection`: what is kept of a classified observation. -/
def recordSourceSelection (scan : WorkSourceScan) (claim : WorkSourceScanClaim) (now : Timestamp)
    (members : List WorkSourceInput) (item : WorkSourceItem) (matched : List Nat) :
    Except SourceError WorkSourceScan := do
  requireSourceScan scan claim now
  if 64 < matched.length ∨ ¬ matched.Nodup ∨
      ∃ id ∈ matched, ∀ member ∈ members, ¬ (member.id = id ∧ member.definition.enabled) then
    .error .conflict
  else .ok { scan with lastSelection := some ⟨item, matched⟩ }

end OctaCity.Source
