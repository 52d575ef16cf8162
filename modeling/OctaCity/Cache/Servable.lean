/-
  OctaCity.Cache.Servable

  A published blob has its bytes, and an action result that is read refers to a
  blob that can be read at the same time (`run_servable`).  Metadata and bytes are
  written in opposite orders: bytes before publication, and bytes after the rows
  of a prune are gone.
-/
import OctaCity.Cache.DataPlane

namespace OctaCity.Cache

open Domain Lib List Store Table

/-- Verified bytes of an object are stored. -/
def Present (rules : CacheRules) (store : ByteStore) (object : CacheBlobObject) : Prop :=
  ∃ bytes, store object = some bytes ∧ rules.verifyBlobBytes object.descriptor bytes = true

variable {object : CacheBlobObject}

theorem putIfAbsent_present {rules : CacheRules} {store store' : ByteStore} {bytes : List UInt8}
    {write : CacheBlobWrite} (h : putIfAbsent rules store object bytes = .ok (write, store')) :
    Present rules store' object ∧
      ∀ other, Present rules store other → Present rules store' other := by
  unfold putIfAbsent at h
  rw [guard_eq_ok] at h
  obtain ⟨hverified, h⟩ := h
  rw [Bool.not_eq_true', Bool.not_eq_false] at hverified
  split at h
  · cases h
    refine ⟨⟨bytes, Function.update_self .., hverified⟩, ?_⟩
    rintro other ⟨stored, hstor, hother⟩
    by_cases hsame : other = object
    · subst hsame
      exact ⟨bytes, Function.update_self .., hverified⟩
    · exact ⟨stored, by rw [Function.update_of_ne hsame]; exact hstor, hother⟩
  · rename_i existing hexisting
    rw [guard_eq_ok] at h
    obtain ⟨hsame, h⟩ := h
    cases h
    rw [not_or, not_ne_iff] at hsame
    obtain ⟨-, rfl⟩ := hsame
    exact ⟨⟨existing, hexisting, hverified⟩, fun _ hother => hother⟩

namespace CacheStore

variable {rules : CacheRules} {bytes : ByteStore} {s s' : CacheStore} {scopeId : ScopeId}
  {key : BlobKey} {deadline : Timestamp}

/-! ## Blobs -/

/-- A row is that of a route, and once it is published its bytes are stored. -/
structure BlobRow.Served (rules : CacheRules) (bytes : ByteStore) (row : BlobRow) : Prop where
  routed : row.descriptor = blobDescriptor row.blobKey
  valid : rules.validateBlob row.descriptor = true
  present : row.publishedAt.isSome = true → Present rules bytes row.object

def BlobsServed (rules : CacheRules) (bytes : ByteStore) (s : CacheStore) : Prop :=
  ∀ row ∈ s.blobs.rows, BlobRow.Served rules bytes row

theorem findBlob_extendBlob (blobScope : ScopeId) (blobKey : BlobKey) :
    (s.extendBlob scopeId key deadline).findBlob blobScope blobKey =
      (s.findBlob blobScope blobKey).map fun row =>
        if row.key = toLex (scopeId, key) then row.extend deadline else row := by
  simp only [findBlob, extendBlob, Table.find?_updateWhere, decide_eq_true_eq]

theorem BlobsServed.extendBlob (h : BlobsServed rules bytes s) :
    BlobsServed rules bytes (s.extendBlob scopeId key deadline) := by
  intro row' hrow'
  obtain ⟨row, hrow, rfl⟩ := mem_extendBlob.mp hrow'
  obtain ⟨hrouted, hvalid, hpres⟩ := h row hrow
  split
  · exact ⟨hrouted, hvalid, hpres⟩
  · exact ⟨hrouted, hvalid, hpres⟩

variable {row : BlobRow} {publishedAt : Timestamp}

theorem insertBlob_eq_ok (h : s.insertBlob row = .ok s') :
    s'.actions = s.actions ∧ s.blobs.insert? row = some s'.blobs := by
  unfold insertBlob at h
  rw [guard_eq_ok] at h
  obtain ⟨blobs, hins, h⟩ := bind_eq_ok.mp h.2
  cases h
  exact ⟨rfl, okOr_eq_ok.mp hins⟩

theorem BlobsServed.insertBlob (h : BlobsServed rules bytes s)
    (hnew : BlobRow.Served rules bytes row) (hins : s.insertBlob row = .ok s') :
    BlobsServed rules bytes s' := by
  intro other hother
  obtain rfl | hold := (mem_insert? (insertBlob_eq_ok hins).2).mp hother
  · exact hnew
  · exact h other hold

/-- What a publication changes: the row of its key is published. -/
theorem setPublished_eq_ok (h : s.setPublished row publishedAt deadline = .ok s') :
    s'.actions = s.actions ∧ ∀ blobScope blobKey, s'.findBlob blobScope blobKey =
      (s.findBlob blobScope blobKey).map fun other =>
        if other.key = row.key ∧ other.publishedAt = none then other.publish publishedAt deadline
        else other := by
  unfold setPublished at h
  rw [guard_eq_ok] at h
  obtain ⟨-, h⟩ := h
  cases h
  refine ⟨rfl, fun blobScope blobKey => ?_⟩
  simp only [findBlob, Table.find?_updateWhere, decide_eq_true_eq]

theorem mem_blobs : row ∈ s.blobs.rows ↔ s.findBlob row.scopeId row.blobKey = some row :=
  mem_iff_find?

theorem BlobsServed.setPublished (h : BlobsServed rules bytes s) (hrow : row ∈ s.blobs.rows)
    (hpres : Present rules bytes row.object)
    (hpub : s.setPublished row publishedAt deadline = .ok s') : BlobsServed rules bytes s' := by
  intro row' hrow'
  have hfound := mem_blobs.mp hrow'
  rw [(setPublished_eq_ok hpub).2, Option.map_eq_some_iff] at hfound
  obtain ⟨before, hbef, hfound⟩ := hfound
  have hmem : before ∈ s.blobs.rows := mem_of_find? hbef
  obtain ⟨hrouted, hvalid, hstor⟩ := h before hmem
  split at hfound
  · rename_i hsame
    obtain rfl := s.blobs.eq_of_key_eq hmem hrow hsame.1
    rw [← hfound]
    exact ⟨hrouted, hvalid, fun _ => hpres⟩
  · rw [← hfound]
    exact ⟨hrouted, hvalid, hstor⟩

/-! ## Action results -/

/-- The blob an action result refers to is stored and published. -/
structure Bundled (s : CacheStore) (action : ActionRow) : Prop where
  named : action.blobKey = action.result.outputBundle.map cacheBlobKey
  published : ∀ key, action.blobKey = some key → ∃ row,
    s.findBlob action.scopeId key = some row ∧ row.publishedAt.isSome = true

def ActionsBundled (s : CacheStore) : Prop := ∀ action ∈ s.actions.rows, s.Bundled action

/-- Blobs that were published still are. -/
def KeepsPublished (s s' : CacheStore) : Prop :=
  ∀ scopeId key row, s.findBlob scopeId key = some row → row.publishedAt.isSome = true →
    ∃ row', s'.findBlob scopeId key = some row' ∧ row'.publishedAt.isSome = true

theorem Bundled.mono {action : ActionRow} (h : s.Bundled action) (hkeeps : KeepsPublished s s') :
    s'.Bundled action where
  named := h.named
  published key hkey := by
    obtain ⟨row, hrow, hpubd⟩ := h.published key hkey
    exact hkeeps _ _ row hrow hpubd

theorem extendBlob_keepsPublished : KeepsPublished s (s.extendBlob scopeId key deadline) := by
  intro blobScope blobKey row hrow hpubd
  rw [findBlob_extendBlob, hrow]
  refine ⟨_, rfl, ?_⟩
  beta_reduce
  split
  · exact hpubd
  · exact hpubd

theorem insertBlob_keepsPublished (h : s.insertBlob row = .ok s') : KeepsPublished s s' := by
  intro blobScope blobKey found hfound hpubd
  have hins := (insertBlob_eq_ok h).2
  refine ⟨found, ?_, hpubd⟩
  have hmem : found ∈ s'.blobs.rows :=
    (mem_insert? hins).mpr (.inr (mem_of_find? hfound))
  have hkey : found.key = toLex (blobScope, blobKey) := key_of_find? hfound
  rw [findBlob, ← hkey]
  exact s'.blobs.find?_of_mem hmem

theorem setPublished_keepsPublished
    (h : s.setPublished row publishedAt deadline = .ok s') : KeepsPublished s s' := by
  intro blobScope blobKey found hfound hpubd
  rw [(setPublished_eq_ok h).2, hfound]
  refine ⟨_, rfl, ?_⟩
  beta_reduce
  split
  · rfl
  · exact hpubd

theorem ActionsBundled.extendAction {actionKey : Digest} (h : s.ActionsBundled) :
    (s.extendAction scopeId actionKey deadline).ActionsBundled := by
  intro action' hact'
  obtain ⟨action, hact, rfl⟩ := mem_extendAction.mp hact'
  obtain ⟨hnamed, hpubd⟩ := h action hact
  split
  · exact ⟨hnamed, hpubd⟩
  · exact ⟨hnamed, hpubd⟩

/-- The blob of a result that may be published is published. -/
theorem retainBundle_published {scope : DataScope} {blobKey : Option BlobKey}
    {retained : CacheStore} (h : s.retainBundle scope blobKey = some retained) :
    retained.actions = s.actions ∧ KeepsPublished s retained ∧
      (BlobsServed rules bytes s → BlobsServed rules bytes retained) ∧
        ∀ key, blobKey = some key → ∃ row, retained.findBlob scope.scopeId key = some row ∧
          row.publishedAt.isSome = true := by
  unfold retainBundle at h
  cases blobKey with
  | none =>
    cases h
    exact ⟨rfl, fun _ _ row hrow hpubd => ⟨row, hrow, hpubd⟩, id,
      fun _ hkey => nomatch hkey⟩
  | some key =>
    simp only at h
    split at h
    · cases h
    · rename_i row hfound
      split at h
      · rename_i hpubd
        cases h
        refine ⟨rfl, extendBlob_keepsPublished, BlobsServed.extendBlob, fun other hother => ?_⟩
        cases hother
        exact extendBlob_keepsPublished _ _ row hfound hpubd
      · cases h

theorem insertAction_eq_ok {row : ActionRow} (h : s.insertAction row = .ok s') :
    s'.blobs = s.blobs ∧ s.actions.insert? row = some s'.actions := by
  unfold insertAction at h
  rw [guard_eq_ok] at h
  obtain ⟨actions, hins, h⟩ := bind_eq_ok.mp h.2
  cases h
  exact ⟨rfl, okOr_eq_ok.mp hins⟩

variable {deleted : List CacheBlobObject}

/-- A prune keeps the blobs that its remaining action results refer to. -/
theorem prune_eq_ok {session : Option DataAuthorizationRow} {access : CacheDataAccess}
    (h : s.prune session access = .ok (deleted, s')) : (∀ row ∈ s'.blobs.rows, row ∈ s.blobs.rows) ∧
      (∀ action ∈ s'.actions.rows, action ∈ s.actions.rows ∧
        ∀ row ∈ s.blobs.rows, row.scopeId = action.scopeId → action.blobKey = some row.blobKey →
          row ∈ s'.blobs.rows) := by
  obtain ⟨scope, -, h⟩ := bind_eq_ok.mp h
  cases h
  refine ⟨fun row hrow => (mem_deleteWhere.mp hrow).1, fun action hact => ?_⟩
  refine ⟨(mem_deleteWhere.mp hact).1, fun row hrow hscope hkey => ?_⟩
  refine mem_deleteWhere.mpr ⟨hrow, ?_⟩
  have hrefd : ((s.deleteActions scope.scopeId access.observedAt).actions.rows.any fun other =>
      other.scopeId = row.scopeId ∧ other.blobKey = some row.blobKey) = true :=
    any_eq_true.mpr ⟨action, hact, by simp [hscope, hkey]⟩
  unfold isPrunable
  rw [hrefd]
  simp

/-! ## Transactions -/

variable {session : Option DataAuthorizationRow} {access : CacheDataAccess}

/-- The metadata two invariants speak of. -/
structure Consistent (rules : CacheRules) (bytes : ByteStore) (s : CacheStore) : Prop where
  blobs : BlobsServed rules bytes s
  actions : s.ActionsBundled

section

variable (h : Consistent rules bytes s)

include h

theorem Consistent.actions_congr (hacts : s'.actions = s.actions)
    (hblobs : BlobsServed rules bytes s') (hkeeps : KeepsPublished s s') :
    Consistent rules bytes s' where
  blobs := hblobs
  actions action hact := by
    rw [hacts] at hact
    exact (h.actions action hact).mono hkeeps

theorem Consistent.prepareBlob {path : BlobKey} {outcome : CacheBlobPreparationOutcome}
    (hprep : s.prepareBlob rules.toProtocolRules session access (blobDescriptor path) =
      .ok (outcome, s')) : Consistent rules bytes s' ∧ ∀ object, outcome = .upload object →
      ∃ row, session = some row ∧ object.scopeId = row.scopeId := by
  unfold CacheStore.prepareBlob at hprep
  rw [guard_eq_ok] at hprep
  obtain ⟨hvalid, hprep⟩ := hprep
  rw [Bool.not_eq_true', Bool.not_eq_false] at hvalid
  obtain ⟨scope, hscope, hprep⟩ := bind_eq_ok.mp hprep
  obtain ⟨row, rfl, rfl⟩ := authorizeData_eq_ok hscope
  simp only at hprep
  split at hprep
  · rw [guard_eq_ok] at hprep
    obtain ⟨-, hprep⟩ := hprep
    cases hprep
    refine ⟨h.actions_congr rfl h.blobs.extendBlob extendBlob_keepsPublished, ?_⟩
    intro object hobj
    split at hobj
    · cases hobj
    · cases hobj
      exact ⟨row, rfl, rfl⟩
  · obtain ⟨allowed, -, hprep⟩ := bind_eq_ok.mp hprep
    cases allowed with
    | false =>
      cases hprep
      exact ⟨h, fun object hobj => by cases hobj⟩
    | true =>
      obtain ⟨charged, -, hprep⟩ := bind_eq_ok.mp hprep
      obtain ⟨after, hins, hprep⟩ := bind_eq_ok.mp hprep
      cases hprep
      refine ⟨h.actions_congr (insertBlob_eq_ok hins).1 (h.blobs.insertBlob ?_ hins)
        (insertBlob_keepsPublished hins), ?_⟩
      · exact ⟨rfl, hvalid, fun hpubd => by cases hpubd⟩
      · intro object hobj
        cases hobj
        exact ⟨row, rfl, rfl⟩

variable {outcome : CachePublicationOutcome}

theorem Consistent.publishBlob {request : PublishCacheBlob}
    (hpres : ∀ row, session = some row → Present rules bytes ⟨row.scopeId, request.blob⟩)
    (hpub : s.publishBlob rules.toProtocolRules session request = .ok (outcome, s')) :
    Consistent rules bytes s' := by
  unfold CacheStore.publishBlob at hpub
  rw [guard_eq_ok] at hpub
  obtain ⟨scope, hscope, hpub⟩ := bind_eq_ok.mp hpub.2
  obtain ⟨row, rfl, rfl⟩ := authorizeData_eq_ok hscope
  simp only at hpub
  split at hpub
  · cases hpub
    exact h
  · rename_i existing hfound
    split at hpub
    · cases hpub
      exact h
    · rename_i hdescriptor
      split at hpub
      · cases hpub
        exact h
      · obtain ⟨after, hset, hpub⟩ := bind_eq_ok.mp hpub
        cases hpub
        have hmem : existing ∈ s.blobs.rows := mem_of_find? hfound
        have hkey : existing.key = toLex (row.scopeId, cacheBlobKey request.blob) :=
          key_of_find? hfound
        have hobj : existing.object = ⟨row.scopeId, request.blob⟩ := by
          rw [BlobRow.object, not_ne_iff.mp hdescriptor]
          exact congrArg (fun k => CacheBlobObject.mk (ofLex k).1 request.blob) hkey
        refine h.actions_congr (setPublished_eq_ok hset).1
          (h.blobs.setPublished hmem ?_ hset) (setPublished_keepsPublished hset)
        rw [hobj]
        exact hpres row rfl

theorem Consistent.publishAction {request : PublishCacheAction}
    (hpub : s.publishAction rules.toProtocolRules session request = .ok (outcome, s')) :
    Consistent rules bytes s' := by
  unfold CacheStore.publishAction at hpub
  rw [guard_eq_ok] at hpub
  obtain ⟨scope, -, hpub⟩ := bind_eq_ok.mp hpub.2
  simp only at hpub
  split at hpub
  · split at hpub
    · cases hpub
      exact h
    · cases hpub
      exact ⟨h.blobs, h.actions.extendAction⟩
  · split at hpub
    · cases hpub
      exact h
    · rename_i retained hretain
      obtain ⟨allowed, -, hpub⟩ := bind_eq_ok.mp hpub
      cases allowed with
      | false =>
        cases hpub
        exact h
      | true =>
        obtain ⟨charged, -, hpub⟩ := bind_eq_ok.mp hpub
        obtain ⟨after, hins, hpub⟩ := bind_eq_ok.mp hpub
        cases hpub
        obtain ⟨hacts, hkeeps, hserved, hbundle⟩ := retainBundle_published hretain
        obtain ⟨hblobs, hinserted⟩ := insertAction_eq_ok hins
        have hfind : ∀ scopeId key, s'.findBlob scopeId key = retained.findBlob scopeId key := by
          intro scopeId key
          rw [findBlob, findBlob, hblobs]
        constructor
        · intro row hrow
          rw [hblobs] at hrow
          exact hserved h.blobs row hrow
        · intro action hact
          obtain rfl | hold := (mem_insert? hinserted).mp hact
          · refine ⟨rfl, fun key hkey => ?_⟩
            rw [hfind]
            exact hbundle key hkey
          · rw [hacts] at hold
            refine ((h.actions action hold).mono hkeeps).mono ?_
            intro scopeId key row hrow hpubd
            exact ⟨row, by rw [hfind]; exact hrow, hpubd⟩

theorem Consistent.prune
    (hprune : s.prune session access = .ok (deleted, s')) : Consistent rules bytes s' := by
  obtain ⟨hblobs, hacts⟩ := prune_eq_ok hprune
  constructor
  · exact fun row hrow => h.blobs row (hblobs row hrow)
  · intro action hact
    obtain ⟨hbef, hkept⟩ := hacts action hact
    obtain ⟨hnamed, hpubd⟩ := h.actions action hbef
    refine ⟨hnamed, fun key hkey => ?_⟩
    obtain ⟨row, hrow, hvis⟩ := hpubd key hkey
    have hrowKey : row.key = toLex (action.scopeId, key) := key_of_find? hrow
    have hscope : row.scopeId = action.scopeId := congrArg (fun k => (ofLex k).1) hrowKey
    have hblobKey : row.blobKey = key := congrArg (fun k => (ofLex k).2) hrowKey
    have hmem := hkept row (mem_of_find? hrow) hscope (by rw [hblobKey]; exact hkey)
    refine ⟨row, ?_, hvis⟩
    rw [← hscope, ← hblobKey]
    exact mem_blobs.mp hmem

/-- What `read_action` returns refers to a blob that `read_blob` finds. -/
theorem Consistent.readAction {action : Digest} {result : ActionResult} {bundle : BlobDescriptor}
    (hread : s.readAction rules.toProtocolRules session access action = .ok (some result))
    (hbundle : result.outputBundle = some bundle) :
    ∃ object, s.readBlob rules.toProtocolRules session access
      (blobDescriptor (cacheBlobKey bundle)) = .ok (some object) ∧ Present rules bytes object := by
  obtain ⟨scope, hscope, hread⟩ := bind_eq_ok.mp hread
  split at hread
  · cases hread
  · rename_i row hfound
    split at hread
    · cases hread
    · rename_i hret
      split at hread
      · cases hread
      · cases hread
        have hmem : row ∈ s.actions.rows := mem_of_find? hfound
        have hrowKey : row.key = toLex (scope.scopeId, action) := key_of_find? hfound
        have hrowScope : row.scopeId = scope.scopeId := congrArg (fun k => (ofLex k).1) hrowKey
        obtain ⟨hnamed, hpubd⟩ := h.actions row hmem
        have hkey : row.blobKey = some (cacheBlobKey bundle) := by rw [hnamed, hbundle]; rfl
        obtain ⟨blob, hblob, hvis⟩ := hpubd _ hkey
        have hblobKey : blob.key = toLex (row.scopeId, cacheBlobKey bundle) :=
          key_of_find? hblob
        have hblobScope : blob.scopeId = row.scopeId := congrArg (fun k => (ofLex k).1) hblobKey
        have hname : blob.blobKey = cacheBlobKey bundle := congrArg (fun k => (ofLex k).2) hblobKey
        obtain ⟨hrouted, hvalid, hpres⟩ := h.blobs blob (mem_of_find? hblob)
        rw [hname] at hrouted
        have hlive : s.isRetained access.observedAt blob = true := by
          -- the action result that was read keeps its blob
          have hrefd : s.isReferenced blob.scopeId blob.blobKey access.observedAt = true :=
            any_eq_true.mpr ⟨row, hmem, by
              simp [hblobScope, hkey, hname, not_le.mp hret]⟩
          simp [isRetained, hrefd]
        refine ⟨blob.object, ?_, hpres hvis⟩
        have hobj : blob.object = ⟨scope.scopeId, blobDescriptor (cacheBlobKey bundle)⟩ := by
          rw [BlobRow.object, hblobScope, hrowScope, hrouted]
        have hread : s.findBlob scope.scopeId
            (cacheBlobKey (blobDescriptor (cacheBlobKey bundle))) = some blob := by
          rw [← hrowScope]
          exact hblob
        rw [hrouted] at hvalid
        unfold readBlob
        rw [hvalid, hscope]
        simp only [Bool.not_true, Bool.false_eq_true, if_false, bind, Except.bind, hread, hvis,
          hlive, and_self, if_true, hobj]

end

end CacheStore

/-! ## Runs -/

namespace CacheSystem

variable {rules : CacheRules} {scopeOf : Nat → ScopeId} {σ : CacheSystem}

/-- The metadata is consistent with the bytes, and so is what uploads have stored. -/
structure Sound (rules : CacheRules) (scopeOf : Nat → ScopeId) (σ : CacheSystem) : Prop where
  consistent : CacheStore.Consistent rules σ.bytes σ.cache
  owned : ∀ upload ∈ σ.uploads, upload.object.scopeId = scopeOf upload.access.credentialDigest
  stored : ∀ upload ∈ σ.uploads, upload.stored = true → Present rules σ.bytes upload.object

/-- An object is deleted only while no row of it is published and no upload of it
    is between its bytes and its publication. -/
def Undisturbed (σ : CacheSystem) : CacheEvent → Prop
  | .deleteBytes object =>
    (∀ row ∈ σ.cache.blobs.rows, row.object = object → row.publishedAt = none) ∧
      ∀ upload ∈ σ.uploads, upload.object = object → upload.stored = false
  | _ => True

section

variable (h : Sound rules scopeOf σ)

include h

/-- Changed bytes keep what is relied on. -/
theorem Sound.bytes {bytes : ByteStore} {uploads : List Upload}
    (hpubd : ∀ row ∈ σ.cache.blobs.rows, row.publishedAt.isSome = true →
      Present rules σ.bytes row.object → Present rules bytes row.object)
    (huploads : ∀ upload ∈ uploads,
      upload.object.scopeId = scopeOf upload.access.credentialDigest ∧
        (upload.stored = true → Present rules bytes upload.object)) :
    Sound rules scopeOf { σ with bytes, uploads } where
  consistent :=
    { blobs := fun row hrow =>
        let ⟨hrouted, hvalid, hpres⟩ := h.consistent.blobs row hrow
        ⟨hrouted, hvalid, fun hvis => hpubd row hrow hvis (hpres hvis)⟩
      actions := h.consistent.actions }
  owned upload hupload := (huploads upload hupload).1
  stored upload hupload := (huploads upload hupload).2

theorem Sound.put {upload : Upload} (hupload : upload ∈ σ.uploads) :
    Sound rules scopeOf (σ.put rules upload) := by
  unfold CacheSystem.put
  split
  · exact ⟨h.consistent, fun other hother => h.owned other (mem_of_mem_erase hother),
      fun other hother => h.stored other (mem_of_mem_erase hother)⟩
  · rename_i write bytes hput
    obtain ⟨hpres, hkeeps⟩ := putIfAbsent_present hput
    refine h.bytes (fun row _ _ => hkeeps row.object) fun other hother => ?_
    obtain rfl | hold := mem_cons.mp hother
    · exact ⟨h.owned upload hupload, fun _ => hpres⟩
    · have hmem := mem_of_mem_erase hold
      exact ⟨h.owned other hmem, fun hstor => hkeeps _ (h.stored other hmem hstor)⟩

theorem Sound.deleteBytes
    (hund : Undisturbed σ (.deleteBytes object)) : Sound rules scopeOf { σ with
      bytes := Function.update σ.bytes object none
      deletions := σ.deletions.erase object } := by
  obtain ⟨hrows, huploads⟩ := hund
  have hother : ∀ other, other ≠ object → Present rules σ.bytes other →
      Present rules (Function.update σ.bytes object none) other := by
    rintro other hne ⟨stored, hstor, hverified⟩
    exact ⟨stored, by rw [Function.update_of_ne hne]; exact hstor, hverified⟩
  have hsound : Sound rules scopeOf
      { σ with bytes := Function.update σ.bytes object none, uploads := σ.uploads } := by
    refine h.bytes (fun row hrow hvis => hother _ fun hsame => ?_) fun upload hupload => ?_
    · rw [hrows row hrow hsame] at hvis
      cases hvis
    · refine ⟨h.owned upload hupload, fun hstor => hother _ (fun hsame => ?_)
        (h.stored upload hupload hstor)⟩
      rw [huploads upload hupload hsame] at hstor
      cases hstor
  exact ⟨hsound.consistent, hsound.owned, hsound.stored⟩

theorem Sound.step {event : CacheEvent} (hpresents : event.Presents scopeOf)
    (hund : Undisturbed σ event) : Sound rules scopeOf (σ.step rules event) := by
  cases event with
  | prepare session access path bytes =>
    show Sound rules scopeOf (σ.prepare rules session access path bytes)
    unfold CacheSystem.prepare
    split
    · exact h
    · rename_i object cache hprep
      obtain ⟨hconsi, hobj⟩ := h.consistent.prepareBlob hprep
      obtain ⟨row, rfl, hscope⟩ := hobj object rfl
      refine ⟨hconsi, fun upload hupload => ?_, fun upload hupload hstor => ?_⟩
      · obtain rfl | hold := mem_cons.mp hupload
        · rw [hscope]
          exact hpresents _ row rfl
        · exact h.owned upload hold
      · obtain rfl | hold := mem_cons.mp hupload
        · cases hstor
        · exact h.stored upload hold hstor
    · rename_i hprep
      exact ⟨(h.consistent.prepareBlob hprep).1, h.owned, h.stored⟩
  | put upload =>
    simp only [CacheSystem.step]
    split
    · rename_i hen
      exact h.put hen.1
    · exact h
  | publish session upload =>
    simp only [CacheSystem.step]
    split
    · rename_i hen
      have herase : ∀ other ∈ σ.uploads.erase upload, other ∈ σ.uploads :=
        fun other => mem_of_mem_erase
      unfold CacheSystem.publish
      split
      · exact ⟨h.consistent, fun other hother => h.owned other (herase other hother),
          fun other hother => h.stored other (herase other hother)⟩
      · rename_i hpub
        refine ⟨h.consistent.publishBlob (fun row hrow => ?_) hpub,
          fun other hother => h.owned other (herase other hother),
          fun other hother => h.stored other (herase other hother)⟩
        have hscope : row.scopeId = upload.object.scopeId := by
          rw [h.owned upload hen.1]
          refine hpresents _ row ?_
          rw [CacheEvent.session?, hrow]
          rfl
        have hobj : (⟨row.scopeId, upload.object.descriptor⟩ : CacheBlobObject) =
            upload.object := by rw [hscope]
        rw [hobj]
        exact h.stored upload hen.1 hen.2
    · exact h
  | abandonUpload upload =>
    exact ⟨h.consistent, fun other hother => h.owned other (mem_of_mem_erase hother),
      fun other hother => h.stored other (mem_of_mem_erase hother)⟩
  | publishAction session request =>
    simp only [CacheSystem.step]
    split
    · exact h
    · rename_i hpub
      exact ⟨h.consistent.publishAction hpub, h.owned, h.stored⟩
  | prune session access =>
    simp only [CacheSystem.step]
    split
    · exact h
    · rename_i hprune
      exact ⟨h.consistent.prune hprune, h.owned, h.stored⟩
  | deleteBytes object =>
    simp only [CacheSystem.step]
    split
    · exact h.deleteBytes hund
    · exact h
  | abandonDeletion object => exact ⟨h.consistent, h.owned, h.stored⟩

end

theorem sound_initial : Sound rules scopeOf .initial where
  consistent := ⟨(fun _ hrow => nomatch hrow), fun _ hact => nomatch hact⟩
  owned := fun _ hupload => nomatch hupload
  stored := fun _ hupload => nomatch hupload

theorem run_append (events : List CacheEvent) (event : CacheEvent) :
    run rules σ (events ++ [event]) = (run rules σ events).step rules event := by
  rw [run, foldl_append]
  rfl

/-- In a run that deletes no bytes another session has stored since the prune,
    every published blob has its bytes, and every action result that is read
    refers to a blob that can be read then. -/
theorem run_servable {events : List CacheEvent}
    (hpresents : ∀ event ∈ events, event.Presents scopeOf)
    (hund : ∀ before event after, events = before ++ event :: after →
      Undisturbed (run rules .initial before) event) :
    (∀ row ∈ (run rules .initial events).cache.blobs.rows, row.publishedAt.isSome = true →
      Present rules (run rules .initial events).bytes row.object) ∧
    ∀ session access action result bundle,
      (run rules .initial events).cache.readAction rules.toProtocolRules session access action =
        .ok (some result) → result.outputBundle = some bundle →
      ∃ object, (run rules .initial events).cache.readBlob rules.toProtocolRules session access
          (blobDescriptor (cacheBlobKey bundle)) = .ok (some object) ∧
        Present rules (run rules .initial events).bytes object := by
  have hsound : Sound rules scopeOf (run rules .initial events) := by
    induction events using List.reverseRecOn with
    | nil => exact sound_initial
    | append_singleton events event ih =>
      rw [run_append]
      refine (ih (fun earlier hearl => hpresents earlier (mem_append_left _ hearl))
        fun before other after hsplit => ?_).step ?_ (hund events event [] rfl)
      · exact hund before other (after ++ [event]) (by rw [hsplit, append_assoc]; rfl)
      · exact hpresents event (mem_append_right _ mem_cons_self)
  refine ⟨fun row hrow => (hsound.consistent.blobs row hrow).present, ?_⟩
  intro session access action result bundle hread hbundle
  exact hsound.consistent.readAction hread hbundle

namespace Sample

open CacheStore.Sample

def acceptAll : CacheRules := ⟨CacheStore.Sample.acceptAll, fun _ _ => true⟩

def path : BlobKey := cacheBlobKey (blob 1)

/-- The upload of the blob by a request that was observed at a time. -/
def upload (observedAt : Nat) (stored : Bool) : Upload :=
  ⟨access "first" observedAt, ⟨⟨⟨1⟩, "first"⟩, blobDescriptor path⟩, [], stored⟩

/-- A session with the given retention writes the blob. -/
def write (retentionUntil observedAt : Nat) : List CacheEvent :=
  [.prepare (some (session "first" retentionUntil)) (access "first" observedAt) path [],
    .put (upload observedAt false),
    .publish (some (session "first" retentionUntil)) (upload observedAt true)]

/-- The blob expires at 10 and a prune at 12 removes its row; it is written again
    before the prune deletes its bytes. -/
def overtaken : List CacheEvent :=
  write 10 1 ++ .prune (some (session "first" 40)) (access "first" 12) ::
    write 40 12 ++ [.deleteBytes (upload 12 true).object]

/-- The blob is published until 40 and has no bytes. -/
theorem published_without_bytes :
    ((run acceptAll .initial overtaken).cache.blobs.rows.map fun row =>
      (row.object, row.publishedAt.isSome, row.retentionUntil)) =
        [((upload 12 true).object, true, instant 40)] ∧
      (run acceptAll .initial overtaken).bytes (upload 12 true).object = none := by
  decide

/-- The result of an action that has the blob. -/
def request : PublishCacheAction :=
  ⟨access "first" 14, ⟨7, 1⟩, ⟨⟨7, 1⟩, some (blobDescriptor path), "done"⟩, 5⟩

/-- The prune deletes the bytes before the blob is written again. -/
def replaced : List CacheEvent :=
  write 10 1 ++ [.prune (some (session "first" 40)) (access "first" 12),
    .deleteBytes (upload 12 true).object] ++ write 40 13 ++
      [.publishAction (some (session "first" 40)) request]

instance : DecidablePred (Undisturbed σ)
  | .deleteBytes _ => inferInstanceAs (Decidable (_ ∧ _))
  | .prepare .. | .put _ | .publish .. | .abandonUpload _ | .publishAction .. | .prune ..
  | .abandonDeletion _ => inferInstanceAs (Decidable True)

/-- The action result that is read has its blob and the bytes of it. -/
theorem written_once :
    (run acceptAll .initial replaced).cache.readAction acceptAll.toProtocolRules
        (some (session "first" 40)) (access "first" 15) request.action = .ok (some request.result) ∧
      ∃ object, (run acceptAll .initial replaced).cache.readBlob acceptAll.toProtocolRules
          (some (session "first" 40)) (access "first" 15) (blobDescriptor path) = .ok (some object) ∧
        Present acceptAll (run acceptAll .initial replaced).bytes object := by
  have hread : (run acceptAll .initial replaced).cache.readAction acceptAll.toProtocolRules
      (some (session "first" 40)) (access "first" 15) request.action =
        .ok (some request.result) :=
    toOption_eq_some.mp (by decide)
  have hund : ∀ i (hi : i < replaced.length),
      Undisturbed (run acceptAll .initial (replaced.take i)) replaced[i] := by
    decide
  refine ⟨hread, (@run_servable acceptAll (fun _ => ⟨⟨1⟩, "first"⟩) replaced
    (fun event hevent => ?_) fun before event after hsplit => ?_).2 _ _ _ _ _ hread rfl⟩
  · simp only [replaced, write, cons_append, nil_append, mem_cons, not_mem_nil, or_false] at hevent
    obtain rfl | rfl | rfl | rfl | rfl | rfl | rfl | rfl | rfl := hevent <;>
      intro credential row hrow <;> cases hrow <;> rfl
  · have hat := hund before.length (by simp [hsplit])
    simpa [hsplit] using hat

end Sample

end CacheSystem

end OctaCity.Cache
