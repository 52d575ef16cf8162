/-
  OctaCity.Cache.Records

  The metadata of the HTTP L2 cache: blobs and action results of one Project and
  namespace, the keys they are found by, and what the row of a session
  authorizes (octacity-server-store `artifacts/cache_model.rs` and the
  PostgreSQL adapter's `artifacts/cache`).

  The validation of protocol documents belongs to the Octa cache protocol and is
  a parameter.  The text forms of keys and the hash of a scope are compared as
  the values they are made of.
-/
import Mathlib.Data.Prod.Lex
import Mathlib.Data.String.Basic
import OctaCity.Store.Rows

namespace OctaCity.Cache

open Domain Lib Store

/-! ## Documents, keys and rows -/

/-- A content digest with the size of what was hashed. -/
structure Digest where
  hash : Nat
  sizeBytes : Nat
  deriving DecidableEq

instance : LinearOrder Digest :=
  LinearOrder.lift' (fun digest => toLex (digest.hash, digest.sizeBytes)) fun a b h => by
    cases a
    cases b
    simpa using h

inductive BlobEncoding
  | identity
  | zstdV1
  deriving DecidableEq

instance : LinearOrder BlobEncoding :=
  LinearOrder.lift' (fun encoding => decide (encoding = .zstdV1)) fun a b h => by
    cases a <;> cases b <;> simp_all

/-- One physical representation of a blob. -/
structure BlobDescriptor where
  digest : Digest
  encoding : BlobEncoding
  encodedSizeBytes : Nat
  expandedSizeBytes : Nat
  entryCount : Nat
  deriving DecidableEq

/-- An action result; its other fields are opaque. -/
structure ActionResult where
  action : Digest
  outputBundle : Option BlobDescriptor
  document : String
  deriving DecidableEq

/-- `validate` of the protocol documents. -/
structure ProtocolRules where
  validateBlob : BlobDescriptor → Bool
  validateResult : ActionResult → Bool

/-- `cache_blob_key`: the parts the text is formatted from. -/
structure BlobKey where
  digest : Digest
  encoding : BlobEncoding
  encodedSizeBytes : Nat
  entryCount : Nat
  deriving DecidableEq

instance : LinearOrder BlobKey :=
  LinearOrder.lift'
    (fun key => toLex (key.digest, toLex (key.encoding, toLex (key.encodedSizeBytes, key.entryCount))))
    fun a b h => by
      cases a
      cases b
      simpa using h

def cacheBlobKey (blob : BlobDescriptor) : BlobKey where
  digest := blob.digest
  encoding := blob.encoding
  encodedSizeBytes := blob.encodedSizeBytes
  entryCount := blob.entryCount

/-- `cache_scope_id`: a hash of the Project and the namespace, taken as the pair. -/
structure ScopeId where
  projectId : ProjectId
  cacheNamespace : String
  deriving DecidableEq

instance : LinearOrder ScopeId :=
  LinearOrder.lift' (fun scope => toLex (scope.projectId, scope.cacheNamespace)) fun a b h => by
    cases a
    cases b
    simpa using h

/-- Physical identity of a blob's bytes. -/
structure CacheBlobObject where
  scopeId : ScopeId
  descriptor : BlobDescriptor
  deriving DecidableEq

/-- A row of `cache_blobs`; its Project is that of its scope. -/
structure BlobRow where
  scopeId : ScopeId
  blobKey : BlobKey
  descriptor : BlobDescriptor
  chargedBytes : Nat
  retentionUntil : Timestamp
  reservedAt : Timestamp
  publishedAt : Option Timestamp

def BlobRow.key (row : BlobRow) : ScopeId ×ₗ BlobKey := toLex (row.scopeId, row.blobKey)

def BlobRow.object (row : BlobRow) : CacheBlobObject := ⟨row.scopeId, row.descriptor⟩

/-- A row of `cache_actions`; the key of an action is its digest. -/
structure ActionRow where
  scopeId : ScopeId
  actionKey : Digest
  result : ActionResult
  blobKey : Option BlobKey
  chargedBytes : Nat
  retentionUntil : Timestamp
  publishedAt : Timestamp

def ActionRow.key (row : ActionRow) : ScopeId ×ₗ Digest := toLex (row.scopeId, row.actionKey)

/-- The committed metadata of the cache. -/
structure CacheStore where
  blobs : Table BlobRow.key
  actions : Table ActionRow.key

def CacheStore.initial : CacheStore := ⟨.empty, .empty⟩

inductive CacheStoreOperation
  | beginCacheSession
  | readCacheBlob
  | readCacheAction
  | publishCacheBlob
  | publishCacheAction

inductive CacheInputError
  | invalidCacheData
  | invalidCacheSession

inductive CacheStoreError
  | invalidInput (operation : CacheStoreOperation) (source : CacheInputError)
  | credentialRejected
  | unavailable

def invalidCacheData (operation : CacheStoreOperation) : CacheStoreError :=
  .invalidInput operation .invalidCacheData

def invalidCache : CacheStoreError := .invalidInput .beginCacheSession .invalidCacheSession

/-- `records::number`: a size that fits its column. -/
def number (value : Nat) : Except CacheStoreError Nat :=
  if value < 2 ^ 63 then .ok value else .error invalidCache

/-! ## Authority -/

inductive CacheOperation
  | read
  | write

structure CachePermissions where
  read : Bool
  write : Bool

def CachePermissions.allows (permissions : CachePermissions) : CacheOperation → Bool
  | .read => permissions.read
  | .write => permissions.write

inductive CacheSessionState
  | active
  | revoked
  | expired
  deriving DecidableEq

/-- What a request presents. -/
structure CacheDataAccess where
  credentialDigest : Nat
  cacheNamespace : String
  observedAt : Timestamp
  deriving DecidableEq

/-- The session a credential names, joined with its Lease and its registration. -/
structure DataAuthorizationRow where
  projectId : ProjectId
  permissions : CachePermissions
  credentialHash : Nat
  quotaBytes : Bigint
  state : CacheSessionState
  sessionExpiresAt : Timestamp
  retentionUntil : Timestamp
  leaseState : LeaseState
  leaseExpiresAt : Timestamp
  registrationRevoked : Bool
  registrationExpiresAt : Timestamp
  cacheNamespace : String

/-- The scope a session is opened with (`session::begin`). -/
def DataAuthorizationRow.scopeId (row : DataAuthorizationRow) : ScopeId :=
  ⟨row.projectId, row.cacheNamespace⟩

structure DataScope where
  scopeId : ScopeId
  projectId : ProjectId
  quotaBytes : Nat
  retentionUntil : Timestamp

/-- `authorize_data`: a request without an operation needs any permission. -/
def authorizeData (session : Option DataAuthorizationRow) (access : CacheDataAccess)
    (operation : Option CacheOperation) : Except CacheStoreError DataScope :=
  match session with
  | none => .error .credentialRejected
  | some row =>
    let now := access.observedAt
    let permitted :=
      match operation with
      | none => row.permissions.read || row.permissions.write
      | some operation => row.permissions.allows operation
    if row.state ≠ .active ∨ row.cacheNamespace ≠ access.cacheNamespace ∨ !permitted ∨
        row.credentialHash ≠ access.credentialDigest ∨ row.sessionExpiresAt ≤ now ∨
        !row.leaseState.isCurrent ∨ row.leaseExpiresAt ≤ now ∨ row.registrationRevoked ∨
        row.registrationExpiresAt ≤ now then .error .credentialRejected
    else .ok ⟨row.scopeId, row.projectId, row.quotaBytes, row.retentionUntil⟩

theorem authorizeData_eq_ok {session : Option DataAuthorizationRow} {access : CacheDataAccess}
    {operation : Option CacheOperation} {scope : DataScope}
    (h : authorizeData session access operation = .ok scope) : ∃ row, session = some row ∧
      scope = ⟨row.scopeId, row.projectId, row.quotaBytes, row.retentionUntil⟩ := by
  unfold authorizeData at h
  cases session with
  | none => cases h
  | some row =>
    simp only [guard_eq_ok] at h
    obtain ⟨-, h⟩ := h
    cases h
    exact ⟨row, rfl, rfl⟩

end OctaCity.Cache
