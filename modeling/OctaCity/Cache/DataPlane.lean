/-
  OctaCity.Cache.DataPlane

  The transactions of the L2 cache (`artifacts/cache/data_plane.rs` and
  `artifacts/cache/retention.rs`): reserving and publishing a blob, publishing an
  action result, reading both, and pruning.

  A blob is charged to its Project while it is retained, by its own deadline or
  by that of an action result that refers to it.
-/
import OctaCity.Cache.Records

namespace OctaCity.Cache

open Domain Lib Store

/-! ## Requests and statements -/

inductive CacheBlobPreparationOutcome
  | upload (object : CacheBlobObject)
  | alreadyPresent
  | quotaExceeded

inductive CachePublicationOutcome
  | published
  | alreadyPresent
  | conflict
  | quotaExceeded

structure PublishCacheBlob where
  access : CacheDataAccess
  blob : BlobDescriptor

structure PublishCacheAction where
  access : CacheDataAccess
  action : Digest
  result : ActionResult
  wireSizeBytes : Nat

/-- `GREATEST`: a deadline is never moved to an earlier time. -/
def BlobRow.extend (deadline : Timestamp) (row : BlobRow) : BlobRow :=
  { row with retentionUntil := max row.retentionUntil deadline }

@[simp] theorem BlobRow.extend_key (deadline : Timestamp) (row : BlobRow) :
    (row.extend deadline).key = row.key := rfl

def BlobRow.publish (publishedAt deadline : Timestamp) (row : BlobRow) : BlobRow :=
  { row with
    publishedAt := some publishedAt
    retentionUntil := max row.retentionUntil deadline }

@[simp] theorem BlobRow.publish_key (publishedAt deadline : Timestamp) (row : BlobRow) :
    (row.publish publishedAt deadline).key = row.key := rfl

def ActionRow.extend (deadline : Timestamp) (row : ActionRow) : ActionRow :=
  { row with retentionUntil := max row.retentionUntil deadline }

@[simp] theorem ActionRow.extend_key (deadline : Timestamp) (row : ActionRow) :
    (row.extend deadline).key = row.key := rfl

namespace CacheStore

variable (rules : ProtocolRules) (s : CacheStore)

def findBlob (scopeId : ScopeId) (key : BlobKey) : Option BlobRow :=
  s.blobs.find? (toLex (scopeId, key))

def findAction (scopeId : ScopeId) (key : Digest) : Option ActionRow :=
  s.actions.find? (toLex (scopeId, key))

/-- Whether a retained action result refers to a blob. -/
def isReferenced (scopeId : ScopeId) (key : BlobKey) (now : Timestamp) : Bool :=
  s.actions.rows.any fun action =>
    action.scopeId = scopeId ∧ action.blobKey = some key ∧ now < action.retentionUntil

def isRetained (now : Timestamp) (row : BlobRow) : Bool :=
  now < row.retentionUntil ∨ s.isReferenced row.scopeId row.blobKey now

def blobCharge (projectId : ProjectId) (now : Timestamp) (row : BlobRow) : Nat :=
  if row.scopeId.projectId = projectId ∧ s.isRetained now row then row.chargedBytes else 0

def actionCharge (projectId : ProjectId) (now : Timestamp) (row : ActionRow) : Nat :=
  if row.scopeId.projectId = projectId ∧ now < row.retentionUntil then row.chargedBytes else 0

/-- The bytes of a Project that are charged at a time. -/
def usedBytes (projectId : ProjectId) (now : Timestamp) : Nat :=
  s.actions.total (actionCharge projectId now) + s.blobs.total (s.blobCharge projectId now)

/-- The sum is cast to `BIGINT` and added in `u64`. -/
def quotaAllows (projectId : ProjectId) (quotaBytes additional : Nat) (now : Timestamp) :
    Except CacheStoreError Bool :=
  let used := s.usedBytes projectId now
  if 2 ^ 63 ≤ used then .error .unavailable
  else .ok (used + additional < 2 ^ 64 ∧ used + additional ≤ quotaBytes)

/-- Keeps a blob until a later deadline. -/
def extendBlob (scopeId : ScopeId) (key : BlobKey) (deadline : Timestamp) : CacheStore :=
  { s with
    blobs := s.blobs.updateWhere (fun row => row.key = toLex (scopeId, key))
      (BlobRow.extend deadline) (BlobRow.extend_key deadline) }

def extendAction (scopeId : ScopeId) (key : Digest) (deadline : Timestamp) : CacheStore :=
  { s with
    actions := s.actions.updateWhere (fun row => row.key = toLex (scopeId, key))
      (ActionRow.extend deadline) (ActionRow.extend_key deadline) }

theorem mem_extendBlob {s : CacheStore} {scopeId : ScopeId} {key : BlobKey} {deadline : Timestamp}
    {row' : BlobRow} : row' ∈ (s.extendBlob scopeId key deadline).blobs.rows ↔ ∃ row ∈ s.blobs.rows,
      (if row.key = toLex (scopeId, key) then row.extend deadline else row) = row' := by
  simp only [extendBlob, Table.mem_updateWhere, decide_eq_true_eq]

theorem mem_extendAction {s : CacheStore} {scopeId : ScopeId} {actionKey : Digest} {deadline : Timestamp}
    {row' : ActionRow} :
    row' ∈ (s.extendAction scopeId actionKey deadline).actions.rows ↔ ∃ row ∈ s.actions.rows,
      (if row.key = toLex (scopeId, actionKey) then row.extend deadline else row) = row' := by
  simp only [extendAction, Table.mem_updateWhere, decide_eq_true_eq]

/-- Inserts a reservation; its size is positive and its deadline after its time. -/
def insertBlob (row : BlobRow) : Except CacheStoreError CacheStore := do
  if row.chargedBytes = 0 ∨ row.retentionUntil ≤ row.reservedAt then .error .unavailable
  else
    let blobs ← okOr (s.blobs.insert? row) .unavailable
    .ok { s with blobs }

/-- A reservation is published once, not before it was made. -/
def setPublished (row : BlobRow) (publishedAt deadline : Timestamp) :
    Except CacheStoreError CacheStore :=
  if publishedAt < row.reservedAt then .error .unavailable
  else .ok { s with
    blobs := s.blobs.updateWhere (fun other => other.key = row.key ∧ other.publishedAt = none)
      (BlobRow.publish publishedAt deadline) (BlobRow.publish_key publishedAt deadline) }

def insertAction (row : ActionRow) : Except CacheStoreError CacheStore := do
  if row.chargedBytes = 0 ∨ row.retentionUntil ≤ row.publishedAt then .error .unavailable
  else
    let actions ← okOr (s.actions.insert? row) .unavailable
    .ok { s with actions }

/-! ## Transactions -/

/-- `prepare_blob`: reserves quota before the bytes are uploaded. -/
def prepareBlob (session : Option DataAuthorizationRow) (access : CacheDataAccess)
    (blob : BlobDescriptor) :
    Except CacheStoreError (CacheBlobPreparationOutcome × CacheStore) := do
  if !rules.validateBlob blob then .error (invalidCacheData .publishCacheBlob)
  else
    let scope ← authorizeData session access (some .write)
    let key := cacheBlobKey blob
    let object : CacheBlobObject := ⟨scope.scopeId, blob⟩
    match s.findBlob scope.scopeId key with
    | some existing =>
      if existing.descriptor ≠ blob then .error .unavailable
      else
        let outcome :=
          if existing.publishedAt.isSome then .alreadyPresent
          else CacheBlobPreparationOutcome.upload object
        .ok (outcome, s.extendBlob scope.scopeId key scope.retentionUntil)
    | none =>
      let allowed ← s.quotaAllows scope.projectId scope.quotaBytes blob.encodedSizeBytes
        access.observedAt
      if !allowed then .ok (.quotaExceeded, s)
      else
        let charged ← number blob.encodedSizeBytes
        let s' ← s.insertBlob ⟨scope.scopeId, key, blob, charged, scope.retentionUntil,
          access.observedAt, none⟩
        .ok (.upload object, s')

/-- `publish_blob`: makes a reserved blob visible after its bytes were stored. -/
def publishBlob (session : Option DataAuthorizationRow) (request : PublishCacheBlob) :
    Except CacheStoreError (CachePublicationOutcome × CacheStore) := do
  if !rules.validateBlob request.blob then .error (invalidCacheData .publishCacheBlob)
  else
    let scope ← authorizeData session request.access (some .write)
    match s.findBlob scope.scopeId (cacheBlobKey request.blob) with
    | none => .ok (.conflict, s)
    | some existing =>
      if existing.descriptor ≠ request.blob then .ok (.conflict, s)
      else if existing.publishedAt.isSome then .ok (.alreadyPresent, s)
      else
        let s' ← s.setPublished existing request.access.observedAt scope.retentionUntil
        .ok (.published, s')

/-- `read_blob`: the object of a published blob that is retained. -/
def readBlob (session : Option DataAuthorizationRow) (access : CacheDataAccess)
    (blob : BlobDescriptor) : Except CacheStoreError (Option CacheBlobObject) := do
  if !rules.validateBlob blob then .error (invalidCacheData .readCacheBlob)
  else
    let scope ← authorizeData session access (some .read)
    match s.findBlob scope.scopeId (cacheBlobKey blob) with
    | none => .ok none
    | some row =>
      if row.publishedAt.isSome ∧ s.isRetained access.observedAt row then
        .ok (some ⟨scope.scopeId, blob⟩)
      else .ok none

/-- The blob an action result refers to is kept as long as the result. -/
def retainBundle (scope : DataScope) : Option BlobKey → Option CacheStore
  | none => some s
  | some key =>
    match s.findBlob scope.scopeId key with
    | none => none
    | some row =>
      if row.publishedAt.isSome then some (s.extendBlob scope.scopeId key scope.retentionUntil)
      else none

/-- `publish_action`: an action result is published once. -/
def publishAction (session : Option DataAuthorizationRow) (request : PublishCacheAction) :
    Except CacheStoreError (CachePublicationOutcome × CacheStore) := do
  if !rules.validateResult request.result ∨ request.result.action ≠ request.action ∨
      request.wireSizeBytes = 0 then .error (invalidCacheData .publishCacheAction)
  else
    let scope ← authorizeData session request.access (some .write)
    match s.findAction scope.scopeId request.action with
    | some existing =>
      if existing.result ≠ request.result then .ok (.conflict, s)
      else
        .ok (.alreadyPresent, s.extendAction scope.scopeId request.action scope.retentionUntil)
    | none =>
      let blobKey := request.result.outputBundle.map cacheBlobKey
      match s.retainBundle scope blobKey with
      | none => .ok (.conflict, s)
      | some retained =>
        let allowed ← retained.quotaAllows scope.projectId scope.quotaBytes request.wireSizeBytes
          request.access.observedAt
        if !allowed then .ok (.quotaExceeded, s)
        else
          let charged ← number request.wireSizeBytes
          let s' ← retained.insertAction ⟨scope.scopeId, request.action, request.result, blobKey,
            charged, scope.retentionUntil, request.access.observedAt⟩
          .ok (.published, s')

/-- `read_action`: a stored result that is retained. -/
def readAction (session : Option DataAuthorizationRow) (access : CacheDataAccess)
    (action : Digest) : Except CacheStoreError (Option ActionResult) := do
  let scope ← authorizeData session access (some .read)
  match s.findAction scope.scopeId action with
  | none => .ok none
  | some row =>
    if row.retentionUntil ≤ access.observedAt then .ok none
    else if !rules.validateResult row.result then .error (invalidCacheData .readCacheAction)
    else .ok (some row.result)

/-- Deletes the action results of a scope that have expired. -/
def deleteActions (scopeId : ScopeId) (now : Timestamp) : CacheStore :=
  { s with
    actions := s.actions.deleteWhere fun row => row.scopeId = scopeId ∧ row.retentionUntil ≤ now }

/-- Whether a blob of the scope has expired and no action result refers to it. -/
def isPrunable (scopeId : ScopeId) (now : Timestamp) (row : BlobRow) : Bool :=
  row.scopeId = scopeId ∧ row.retentionUntil ≤ now ∧
    ¬ s.actions.rows.any fun action =>
      action.scopeId = row.scopeId ∧ action.blobKey = some row.blobKey

/-- `prune`: returns the objects whose bytes are to be deleted. -/
def prune (session : Option DataAuthorizationRow) (access : CacheDataAccess) :
    Except CacheStoreError (List CacheBlobObject × CacheStore) := do
  let scope ← authorizeData session access none
  let kept := s.deleteActions scope.scopeId access.observedAt
  let prunable := kept.isPrunable scope.scopeId access.observedAt
  .ok ((kept.blobs.rows.filter prunable).map BlobRow.object,
    { kept with blobs := kept.blobs.deleteWhere prunable })

end CacheStore

/-! ## Runs -/

/-- A request of the cache that can change its metadata. -/
inductive CacheTransaction
  | prepareBlob (session : Option DataAuthorizationRow) (access : CacheDataAccess)
      (blob : BlobDescriptor)
  | publishBlob (session : Option DataAuthorizationRow) (request : PublishCacheBlob)
  | publishAction (session : Option DataAuthorizationRow) (request : PublishCacheAction)
  | prune (session : Option DataAuthorizationRow) (access : CacheDataAccess)

namespace CacheTransaction

def session : CacheTransaction → Option DataAuthorizationRow
  | .prepareBlob session _ _ | .publishBlob session _ | .publishAction session _
  | .prune session _ => session

def observedAt : CacheTransaction → Timestamp
  | .prepareBlob _ access _ | .prune _ access => access.observedAt
  | .publishBlob _ request => request.access.observedAt
  | .publishAction _ request => request.access.observedAt

end CacheTransaction

namespace CacheStore

def execute (rules : ProtocolRules) (s : CacheStore) :
    CacheTransaction → Except CacheStoreError CacheStore
  | .prepareBlob session access blob => (s.prepareBlob rules session access blob).map (·.2)
  | .publishBlob session request => (s.publishBlob rules session request).map (·.2)
  | .publishAction session request => (s.publishAction rules session request).map (·.2)
  | .prune session access => (s.prune session access).map (·.2)

/-- A failed transaction changes nothing. -/
def step (rules : ProtocolRules) (s : CacheStore) (transaction : CacheTransaction) : CacheStore :=
  match s.execute rules transaction with
  | .ok s' => s'
  | .error _ => s

def run (rules : ProtocolRules) (s : CacheStore) (transactions : List CacheTransaction) :
    CacheStore :=
  transactions.foldl (step rules) s

/-! ## A small cache -/

namespace Sample

def acceptAll : ProtocolRules := ⟨fun _ => true, fun _ => true⟩

/-- One of the first 1000 milliseconds. -/
def instant (unixMillis : Nat) : Timestamp :=
  ⟨min unixMillis 1000, supported_small unixMillis⟩

theorem hundred_lt : 100 < 2 ^ 63 := by decide

/-- A session of the only Project, with a quota of 100 bytes. -/
def session (cacheNamespace : String) (retentionUntil : Nat) : DataAuthorizationRow where
  projectId := ⟨1⟩
  permissions := ⟨true, true⟩
  credentialHash := 1
  quotaBytes := ⟨100, hundred_lt⟩
  state := .active
  sessionExpiresAt := instant 900
  retentionUntil := instant retentionUntil
  leaseState := .active
  leaseExpiresAt := instant 900
  registrationRevoked := false
  registrationExpiresAt := instant 900
  cacheNamespace := cacheNamespace

def access (cacheNamespace : String) (observedAt : Nat) : CacheDataAccess :=
  ⟨1, cacheNamespace, instant observedAt⟩

/-- A blob of 60 bytes. -/
def blob (hash : Nat) : BlobDescriptor := ⟨⟨hash, 60⟩, .identity, 60, 60, 1⟩

/-- A session with the given retention reserves a blob. -/
def prepare (cacheNamespace : String) (retentionUntil observedAt hash : Nat) : CacheTransaction :=
  .prepareBlob (some (session cacheNamespace retentionUntil)) (access cacheNamespace observedAt)
    (blob hash)

end Sample

end CacheStore

/-! # Sessions

Concurrent cache sessions as the steps they take (`cache_data_plane.rs`).

A blob is written by reserving it, storing its bytes and publishing it; a prune
deletes metadata and then the bytes, one object after the other.  Every step is
atomic, other sessions run in between, and a call can end after any of its
steps.  The byte store keeps what was put until it is deleted.
-/

/-- The protocol rules with `verify_blob_bytes`. -/
structure CacheRules extends ProtocolRules where
  verifyBlobBytes : BlobDescriptor → List UInt8 → Bool

abbrev ByteStore := CacheBlobObject → Option (List UInt8)

inductive CacheBlobWrite
  | written
  | alreadyPresent

/-- `put_if_absent`: verified bytes are created once; equal bytes may be there.
    The error is an integrity failure. -/
def putIfAbsent (rules : CacheRules) (store : ByteStore) (object : CacheBlobObject)
    (bytes : List UInt8) : Except Unit (CacheBlobWrite × ByteStore) :=
  if !rules.verifyBlobBytes object.descriptor bytes then .error ()
  else
    match store object with
    | none => .ok (.written, Function.update store object (some bytes))
    | some existing =>
      if !rules.verifyBlobBytes object.descriptor existing ∨ existing ≠ bytes then .error ()
      else .ok (.alreadyPresent, store)

/-- The blob a route names (`octacity-server-api-cache`): it has the parts of a
    key, and its expanded size is that of its digest. -/
def blobDescriptor (path : BlobKey) : BlobDescriptor where
  digest := path.digest
  encoding := path.encoding
  encodedSizeBytes := path.encodedSizeBytes
  expandedSizeBytes := path.digest.sizeBytes
  entryCount := path.entryCount

/-! ## Calls in progress -/

/-- A `write_blob` call after its reservation. -/
structure Upload where
  access : CacheDataAccess
  object : CacheBlobObject
  bytes : List UInt8
  stored : Bool
  deriving DecidableEq

/-- The committed metadata, the stored bytes, the uploads in progress and the
    objects that prunes have still to delete. -/
structure CacheSystem where
  cache : CacheStore
  bytes : ByteStore
  uploads : List Upload
  deletions : List CacheBlobObject

/-- One step of a call; a `session` is the row its credential is found by. -/
inductive CacheEvent
  | prepare (session : Option DataAuthorizationRow) (access : CacheDataAccess) (path : BlobKey)
      (bytes : List UInt8)
  | put (upload : Upload)
  | publish (session : Option DataAuthorizationRow) (upload : Upload)
  | abandonUpload (upload : Upload)
  | publishAction (session : Option DataAuthorizationRow) (request : PublishCacheAction)
  | prune (session : Option DataAuthorizationRow) (access : CacheDataAccess)
  | deleteBytes (object : CacheBlobObject)
  | abandonDeletion (object : CacheBlobObject)

namespace CacheSystem

def initial : CacheSystem := ⟨.initial, fun _ => none, [], []⟩

variable (rules : CacheRules) (σ : CacheSystem)

/-- The reservation of `write_blob`; the bytes are uploaded unless they are visible. -/
def prepare (session : Option DataAuthorizationRow) (access : CacheDataAccess) (path : BlobKey)
    (bytes : List UInt8) : CacheSystem :=
  match σ.cache.prepareBlob rules.toProtocolRules session access (blobDescriptor path) with
  | .error _ => σ
  | .ok (.upload object, cache) =>
    { σ with cache, uploads := ⟨access, object, bytes, false⟩ :: σ.uploads }
  | .ok (_, cache) => { σ with cache }

/-- An upload whose bytes are refused ends. -/
def put (upload : Upload) : CacheSystem :=
  match putIfAbsent rules σ.bytes upload.object upload.bytes with
  | .error _ => { σ with uploads := σ.uploads.erase upload }
  | .ok (_, bytes) =>
    { σ with bytes, uploads := { upload with stored := true } :: σ.uploads.erase upload }

def publish (session : Option DataAuthorizationRow) (upload : Upload) : CacheSystem :=
  match σ.cache.publishBlob rules.toProtocolRules session
    ⟨upload.access, upload.object.descriptor⟩ with
  | .error _ => { σ with uploads := σ.uploads.erase upload }
  | .ok (_, cache) => { σ with cache, uploads := σ.uploads.erase upload }

/-- A step; one that is not enabled changes nothing. -/
def step : CacheEvent → CacheSystem
  | .prepare session access path bytes => σ.prepare rules session access path bytes
  | .put upload =>
    if upload ∈ σ.uploads ∧ upload.stored = false then σ.put rules upload else σ
  | .publish session upload =>
    if upload ∈ σ.uploads ∧ upload.stored = true then σ.publish rules session upload else σ
  | .abandonUpload upload => { σ with uploads := σ.uploads.erase upload }
  | .publishAction session request =>
    match σ.cache.publishAction rules.toProtocolRules session request with
    | .error _ => σ
    | .ok (_, cache) => { σ with cache }
  | .prune session access =>
    match σ.cache.prune session access with
    | .error _ => σ
    | .ok (deleted, cache) => { σ with cache, deletions := deleted ++ σ.deletions }
  | .deleteBytes object =>
    if object ∈ σ.deletions then
      { σ with
        bytes := Function.update σ.bytes object none
        deletions := σ.deletions.erase object }
    else σ
  | .abandonDeletion object => { σ with deletions := σ.deletions.erase object }

def run (events : List CacheEvent) : CacheSystem := events.foldl (step rules) σ

end CacheSystem

namespace CacheEvent

/-- The session of an event and the credential it was found by. -/
def session? : CacheEvent → Option (Nat × DataAuthorizationRow)
  | .prepare session access _ _ | .prune session access =>
    session.map fun row => (access.credentialDigest, row)
  | .publish session upload => session.map fun row => (upload.access.credentialDigest, row)
  | .publishAction session request =>
    session.map fun row => (request.access.credentialDigest, row)
  | _ => none

/-- A credential names one session, whose Project and namespace never change. -/
def Presents (scopeOf : Nat → ScopeId) (event : CacheEvent) : Prop :=
  ∀ credential row, event.session? = some (credential, row) → row.scopeId = scopeOf credential

end CacheEvent

end OctaCity.Cache
