/-
  OctaCity.Source.Projection

  The journal that orders native writes to one source item
  (`factory_source_projection.rs` of the store crate and of the Postgres store):
  accepted publications take increasing sequences, and `coordinate` pins their
  fields, hands out write permits and fences native reads.

  The facts that a call reads from the accepted outbox records (`candidates`) are
  given with its request.
-/
import OctaCity.Factory.Value
import OctaCity.Lib.Result
import OctaCity.Lib.Table

namespace OctaCity.Source

open Factory Lib

/-! ## Requests and answers -/

/-- `source_conflict` and `StoreError::Unavailable`. -/
inductive SourceError
  | conflict
  | unavailable
  deriving DecidableEq

inductive SourceProjectionAction
  | register
  | observe (revision : Option FactoryDigest)
  | begin (stepId : FactoryDigest) (fields : List FactoryDigest)
  | finish (stepId : FactoryDigest) (isUncertain : Bool)

structure SourceProjectionRequest where
  workId : Option Nat
  operationId : FactoryDigest
  claim : FactoryClaim
  observedAt : Timestamp
  fields : List FactoryDigest
  action : SourceProjectionAction

inductive SourceProjectionState
  | observation (revision : FactoryDigest) (isStable : Bool) (fields : List FactoryDigest)
      (isQuiescent : Bool)
  | ready (fields : List FactoryDigest) (isQuiescent : Bool)
  | granted (permit : FactoryDigest)
  | superseded
  | blocked
  | released

structure SourceProjectionCandidate where
  operationId : FactoryDigest
  workId : Option Nat
  deadline : Timestamp
  claim : Option FactoryClaim

/-! ## The journal -/

structure Head where
  field : FactoryDigest
  operation : FactoryDigest
  sequence : Nat
  generation : Nat

/-- A permit that was granted and is not known to be completed. -/
structure Lease where
  permit : FactoryDigest
  operation : FactoryDigest
  claim : FactoryClaim
  fields : List FactoryDigest
  deadline : Timestamp
  deriving DecidableEq

structure SourceProjectionJournal where
  heads : Table Head.field
  leases : Table Lease.permit

/-- The accepted publication of one operation. -/
structure SourceProjectionIntent where
  operation : FactoryDigest
  sequence : Nat
  /-- `managed_fields`; set when the operation is registered. -/
  fields : Option (List FactoryDigest)

/-- What the digests of the journal are taken over decides them. -/
structure ProjectionDigests where
  /-- Operation, claim fence and step. -/
  permit : FactoryDigest → FactoryDigest → FactoryDigest → FactoryDigest
  view : List Head → FactoryDigest
  view_injective : Function.Injective view

/-- `checked_fields`: distinct fields of a bounded number, in their order. -/
def checkedFields (fields : List FactoryDigest) (mayBeEmpty : Bool) :
    Except SourceError (List FactoryDigest) :=
  if (¬ mayBeEmpty ∧ fields = []) ∨ (if mayBeEmpty then 512 else 256) < fields.length ∨
      ¬ fields.Nodup then
    .error .conflict
  else .ok (fields.mergeSort fun a b => a ≤ b)

def Head.advance (head : Head) : Head := { head with generation := head.generation + 1 }

namespace SourceProjectionJournal

variable (digests : ProjectionDigests) (journal : SourceProjectionJournal)

/-- One field of `advance`. -/
def advanceField (journal : SourceProjectionJournal) (field : FactoryDigest) :
    Except SourceError SourceProjectionJournal := do
  let head ← okOr (journal.heads.find? field) .conflict
  if 2 ^ 64 ≤ head.generation + 1 then .error .conflict
  else .ok { journal with heads := journal.heads.put head.advance }

def advance (fields : List FactoryDigest) : Except SourceError SourceProjectionJournal :=
  fields.foldlM advanceField journal

/-- Makes an operation the head of one of its fields, unless a later one is. -/
def registerField (operation : FactoryDigest) (sequence : Nat) (journal : SourceProjectionJournal)
    (field : FactoryDigest) : Except SourceError SourceProjectionJournal :=
  match journal.heads.find? field with
  | none => .ok { journal with heads := journal.heads.put ⟨field, operation, sequence, 1⟩ }
  | some head =>
    if head.sequence < sequence then
      if 2 ^ 64 ≤ head.generation + 1 then .error .conflict
      else
        .ok { journal with
              heads := journal.heads.put ⟨field, operation, sequence, head.generation + 1⟩ }
    else .ok journal

/-- Pins the fields of an operation that has none yet. -/
def register (intent : SourceProjectionIntent) (scope : List FactoryDigest) :
    Except SourceError (SourceProjectionJournal × SourceProjectionIntent) :=
  match intent.fields with
  | some _ => .ok (journal, intent)
  | none =>
    if 4096 < journal.heads.size + scope.countP fun field => ¬ journal.heads.contains field then
      .error .conflict
    else do
      let journal ← scope.foldlM (registerField intent.operation intent.sequence) journal
      .ok (journal, { intent with fields := some scope })

def isOwned (intent : SourceProjectionIntent) (field : FactoryDigest) : Bool :=
  (journal.heads.find? field).any fun head =>
    head.operation = intent.operation ∧ head.sequence = intent.sequence

/-- The fields of a scope that an operation still owns. -/
def owned (intent : SourceProjectionIntent) (scope : List FactoryDigest) : List FactoryDigest :=
  scope.filter (journal.isOwned intent)

/-- Whether another operation holds a permit on one of the fields. -/
def isHazardous (operation : FactoryDigest) (fields : List FactoryDigest) (lease : Lease) : Bool :=
  lease.operation ≠ operation ∧ ∃ field ∈ lease.fields, field ∈ fields

/-- The heads that an observation is taken over. -/
def view (fields : List FactoryDigest) : List Head := fields.filterMap journal.heads.find?

/-- The `Finish` branch. -/
def finish (request : SourceProjectionRequest) (intent : SourceProjectionIntent)
    (scope : List FactoryDigest) (stepId : FactoryDigest) (isUncertain : Bool) :
    Except SourceError SourceProjectionJournal :=
  match journal.leases.find?
      (digests.permit request.operationId request.claim.fence stepId) with
  | none => .ok journal
  | some lease =>
    if lease.operation ≠ request.operationId ∨ lease.claim ≠ request.claim ∨
        intent.fields ≠ some scope then
      .error .conflict
    else if isUncertain then .ok journal
    else { journal with leases := journal.leases.erase lease.permit }.advance lease.fields

/-- The `Begin` branch. -/
def begin (request : SourceProjectionRequest) (candidate : SourceProjectionCandidate)
    (scope owned : List FactoryDigest) (stepId : FactoryDigest) (fields : List FactoryDigest) :
    Except SourceError (SourceProjectionJournal × SourceProjectionState) := do
  let stepFields ← checkedFields fields false
  if (∃ field ∈ stepFields, field ∉ scope) ∨ 128 ≤ journal.leases.size then .error .conflict
  else if ∃ field ∈ stepFields, field ∉ owned then .ok (journal, .superseded)
  else
    let permit := digests.permit request.operationId request.claim.fence stepId
    if journal.leases.contains permit then .error .conflict
    else do
      let journal ← journal.advance stepFields
      .ok ({ journal with
             leases := journal.leases.put
               ⟨permit, request.operationId, request.claim, stepFields, candidate.deadline⟩ },
           .granted permit)

/-- The answer to an operation whose fields are pinned. -/
def answer (request : SourceProjectionRequest) (candidate : SourceProjectionCandidate)
    (intent : SourceProjectionIntent) (scope : List FactoryDigest) (isNewerUnknown : Bool) :
    Except SourceError (SourceProjectionJournal × SourceProjectionState) :=
  let owned := journal.owned intent scope
  let isQuiescent := ¬ journal.leases.rows.any (isHazardous request.operationId owned)
  if isNewerUnknown then .ok (journal, .blocked)
  else if scope ≠ [] ∧ owned = [] then .ok (journal, .superseded)
  -- After the window of an unresolved write no quiet period is certified.
  else if journal.leases.rows.any fun lease =>
      isHazardous request.operationId owned lease ∧ lease.deadline ≤ request.observedAt then
    .error .conflict
  else
    match request.action with
    | .observe revision =>
      let current := digests.view (journal.view owned)
      .ok (journal, .observation current (revision = some current) owned isQuiescent)
    | .register => .ok (journal, .ready owned isQuiescent)
    | .begin stepId fields => journal.begin digests request candidate scope owned stepId fields
    | .finish _ _ => .ok (journal, .released)

/-- Whether the claim of a request is the live one of its operation. -/
def isClaimCurrent (request : SourceProjectionRequest) (candidate : SourceProjectionCandidate) :
    Bool :=
  candidate.claim = some request.claim ∧ request.observedAt < candidate.deadline ∧
    (request.claim.verifyFence request.claim.fence request.observedAt).isOk

def coordinate (request : SourceProjectionRequest) (candidates : List SourceProjectionCandidate)
    (intent : SourceProjectionIntent) (isNewerUnknown : Bool) :
    Except SourceError (SourceProjectionJournal × SourceProjectionIntent × SourceProjectionState) := do
  let scope ← checkedFields request.fields true
  if intent.sequence = 0 ∨ ∃ original ∈ intent.fields, original ≠ scope then .error .conflict
  else do
    let candidate ← okOr
      (candidates.find? fun candidate =>
        candidate.operationId = request.operationId ∧ candidate.workId = request.workId) .conflict
    match request.action with
    | .finish stepId isUncertain => do
      let journal ← journal.finish digests request intent scope stepId isUncertain
      .ok (journal, intent, .released)
    | _ =>
      if ¬ isClaimCurrent request candidate then .error .conflict
      else do
        let (journal, intent) ← journal.register intent scope
        let (journal, state) ← journal.answer digests request candidate intent scope isNewerUnknown
        .ok (journal, intent, state)

end SourceProjectionJournal

/-! ## One source item -/

/-- The journal and the accepted publications of one item. -/
structure ProjectionItem where
  journal : SourceProjectionJournal
  intents : Table SourceProjectionIntent.operation
  nextSequence : Nat

inductive ProjectionEvent
  /-- `record_intent` of an accepted operation. -/
  | publish (operation : FactoryDigest)
  | coordinate (request : SourceProjectionRequest) (candidates : List SourceProjectionCandidate)

namespace ProjectionItem

variable (digests : ProjectionDigests) (encodedSize : SourceProjectionJournal → Nat)
  (item : ProjectionItem)

def initial : ProjectionItem := ⟨⟨.empty, .empty⟩, .empty, 0⟩

/-- `record_intent`: the next sequence goes to an operation that has none. -/
def publish (operation : FactoryDigest) : Except SourceError ProjectionItem :=
  if item.intents.contains operation then .ok item
  else if item.nextSequence + 1 < 2 ^ 63 then
    .ok { item with
          intents := item.intents.put ⟨operation, item.nextSequence + 1, none⟩
          nextSequence := item.nextSequence + 1 }
  else .error .conflict

/-- Whether a later accepted publication has no fields yet. -/
def isNewerUnknown (sequence : Nat) : Bool :=
  item.intents.rows.any fun intent => sequence < intent.sequence ∧ intent.fields = none

/-- `coordinate` of the Postgres store. -/
def coordinate (request : SourceProjectionRequest) (candidates : List SourceProjectionCandidate) :
    Except SourceError (ProjectionItem × SourceProjectionState) := do
  let intent ← okOr (item.intents.find? request.operationId) .conflict
  let (journal, intent, state) ← item.journal.coordinate digests request candidates intent
    (item.isNewerUnknown intent.sequence)
  if 4 * 1024 * 1024 < encodedSize journal then .error .conflict
  else .ok ({ item with journal, intents := item.intents.put intent }, state)

/-- A failed transaction changes nothing. -/
def step : ProjectionEvent → ProjectionItem
  | .publish operation => ((item.publish operation).toOption).getD item
  | .coordinate request candidates =>
    ((item.coordinate digests encodedSize request candidates).toOption.map (·.1)).getD item

def run (events : List ProjectionEvent) : ProjectionItem :=
  events.foldl (step digests encodedSize) item

end ProjectionItem

end OctaCity.Source
