/-
  OctaCity.Cache.Quota

  How the charged bytes of a Project change.  Time and pruning only lower them,
  and a new row is checked against the quota.
-/
import OctaCity.Cache.DataPlane

namespace OctaCity.Cache

open Domain Lib List Nat Store Table

namespace CacheStore

variable {rules : ProtocolRules} {s s' : CacheStore} {projectId : ProjectId} {now later : Timestamp}
  {scopeId : ScopeId} {key : BlobKey} {deadline : Timestamp}

/-! ## Time and pruning -/

theorem isReferenced_iff : s.isReferenced scopeId key now = true ↔
    ∃ action ∈ s.actions.rows, action.scopeId = scopeId ∧ action.blobKey = some key ∧
      now < action.retentionUntil := by
  simp [isReferenced, any_eq_true]

variable {row : BlobRow} {actionKey : Digest}

theorem isRetained_iff : s.isRetained now row = true ↔
    now < row.retentionUntil ∨ s.isReferenced row.scopeId row.blobKey now = true := by
  simp [isRetained]

/-- A store whose retained references are among those of another. -/
theorem isRetained_mono (h : s'.isReferenced row.scopeId row.blobKey later = true →
      s.isReferenced row.scopeId row.blobKey now = true)
    (hnow : now ≤ later) (hret : s'.isRetained later row = true) :
    s.isRetained now row = true := by
  rw [isRetained_iff] at hret ⊢
  exact hret.imp (lt_of_le_of_lt hnow) h

theorem isReferenced_antitone (hnow : now ≤ later)
    (h : s.isReferenced scopeId key later = true) : s.isReferenced scopeId key now = true := by
  obtain ⟨action, hact, hscope, hkey, hret⟩ := isReferenced_iff.mp h
  exact isReferenced_iff.mpr ⟨action, hact, hscope, hkey, lt_of_le_of_lt hnow hret⟩

theorem blobCharge_le (h : s'.isRetained later row = true → s.isRetained now row = true) :
    s'.blobCharge projectId later row ≤ s.blobCharge projectId now row := by
  unfold blobCharge
  by_cases hafter : row.scopeId.projectId = projectId ∧ s'.isRetained later row = true
  · rw [if_pos hafter, if_pos ⟨hafter.1, h hafter.2⟩]
  · rw [if_neg hafter]
    exact zero_le _

theorem actionCharge_antitone (hnow : now ≤ later) (row : ActionRow) :
    actionCharge projectId later row ≤ actionCharge projectId now row := by
  unfold actionCharge
  by_cases hafter : row.scopeId.projectId = projectId ∧ later < row.retentionUntil
  · rw [if_pos hafter, if_pos ⟨hafter.1, lt_of_le_of_lt hnow hafter.2⟩]
  · rw [if_neg hafter]
    exact zero_le _

/-- Nothing is charged that was not charged before. -/
theorem usedBytes_antitone (hnow : now ≤ later) :
    s.usedBytes projectId later ≤ s.usedBytes projectId now :=
  Nat.add_le_add (total_mono fun row _ => actionCharge_antitone hnow row)
    (total_mono fun _ _ => blobCharge_le (isRetained_mono (isReferenced_antitone hnow) hnow))

theorem prune_usedBytes {session : Option DataAuthorizationRow} {access : CacheDataAccess}
    {deleted : List CacheBlobObject} (h : s.prune session access = .ok (deleted, s')) :
    s'.usedBytes projectId now ≤ s.usedBytes projectId now := by
  obtain ⟨scope, -, h⟩ := bind_eq_ok.mp h
  cases h
  refine Nat.add_le_add (total_deleteWhere_le _) ?_
  refine Nat.le_trans (total_deleteWhere_le _) (total_mono fun row _ => ?_)
  refine blobCharge_le (isRetained_mono (fun hrefd => ?_) le_rfl)
  obtain ⟨action, hact, hrest⟩ := isReferenced_iff.mp hrefd
  exact isReferenced_iff.mpr ⟨action, (mem_deleteWhere.mp hact).1, hrest⟩

/-! ## Rows that are found again -/

/-- The bytes of a blob that is stored but not charged any more. -/
def lapsedBlob (s : CacheStore) (scopeId : ScopeId) (key : BlobKey) (now : Timestamp) : Nat :=
  match s.findBlob scopeId key with
  | none => 0
  | some row => if s.isRetained now row then 0 else row.chargedBytes

def lapsedResult (s : CacheStore) (scopeId : ScopeId) (key : Digest) (now : Timestamp) : Nat :=
  match s.findAction scopeId key with
  | none => 0
  | some row => if now < row.retentionUntil then 0 else row.chargedBytes

/-- The same for the blob of an action result. -/
def lapsedBundle (s : CacheStore) (scopeId : ScopeId) (key : Digest) (now : Timestamp) : Nat :=
  match (s.findAction scopeId key).bind (·.blobKey) with
  | none => 0
  | some blobKey => s.lapsedBlob scopeId blobKey now

/-- A charge is at most the old charge and what had lapsed. -/
theorem blobCharge_le_lapsed {row' : BlobRow} (hfound : s.findBlob scopeId key = some row)
    (hscope : row'.scopeId = row.scopeId) (hcharged : row'.chargedBytes = row.chargedBytes) :
    s'.blobCharge projectId now row' ≤ s.blobCharge projectId now row +
        if scopeId.projectId = projectId then s.lapsedBlob scopeId key now else 0 := by
  have hkey : row.key = toLex (scopeId, key) := key_of_find? hfound
  have hrowScope : row.scopeId = scopeId := congrArg (fun k => (ofLex k).1) hkey
  unfold blobCharge lapsedBlob
  rw [hscope, hcharged, hrowScope, hfound]
  by_cases hproj : scopeId.projectId = projectId
  · by_cases hret : s.isRetained now row = true
    · simp only [hproj, hret]
      split <;> simp
    · simp only [hproj, hret]
      split <;> simp
  · simp [hproj]

theorem extendBlob_usedBytes : (s.extendBlob scopeId key deadline).usedBytes projectId now ≤
      s.usedBytes projectId now +
        if scopeId.projectId = projectId then s.lapsedBlob scopeId key now else 0 := by
  rw [usedBytes, usedBytes, add_assoc]
  refine Nat.add_le_add_left ?_ _
  refine total_updateWhere_le (BlobRow.extend_key deadline) (k := toLex (scopeId, key))
    (fun row _ hne => ?_)
    fun row hrow => ?_
  · simp only [hne, decide_false, Bool.false_eq_true, if_false]
    exact blobCharge_le id
  · have hkey : row.key = toLex (scopeId, key) := key_of_find? hrow
    simp only [hkey, decide_true, if_true]
    exact blobCharge_le_lapsed hrow rfl rfl

theorem setPublished_usedBytes {publishedAt : Timestamp}
    (hfound : s.findBlob scopeId key = some row)
    (h : s.setPublished row publishedAt deadline = .ok s') :
    s'.usedBytes projectId now ≤ s.usedBytes projectId now +
      if scopeId.projectId = projectId then s.lapsedBlob scopeId key now else 0 := by
  unfold setPublished at h
  rw [guard_eq_ok] at h
  obtain ⟨-, h⟩ := h
  cases h
  have hkey : row.key = toLex (scopeId, key) := key_of_find? hfound
  rw [usedBytes, usedBytes, add_assoc]
  refine Nat.add_le_add_left ?_ _
  refine total_updateWhere_le (BlobRow.publish_key publishedAt deadline) (k := toLex (scopeId, key))
    (fun other _ hne => ?_)
    fun other hother => ?_
  · simp only [hkey, hne, false_and, decide_false, Bool.false_eq_true, if_false]
    exact blobCharge_le id
  · split
    · exact blobCharge_le_lapsed hother rfl rfl
    · exact blobCharge_le_lapsed hother rfl rfl

/-- A reference that the extended action result alone may hold. -/
theorem extendAction_isReferenced {blobScope : ScopeId} {blobKey : BlobKey}
    (h : (s.extendAction scopeId actionKey deadline).isReferenced blobScope blobKey now = true) :
    s.isReferenced blobScope blobKey now = true ∨
      (s.findAction scopeId actionKey).bind (·.blobKey) = some blobKey ∧ blobScope = scopeId := by
  obtain ⟨action', hact', hscope, hkey, hret⟩ := isReferenced_iff.mp h
  obtain ⟨action, hact, rfl⟩ := mem_extendAction.mp hact'
  by_cases hown : action.key = toLex (scopeId, actionKey)
  · right
    rw [if_pos hown] at hscope hkey
    have hactionScope : action.scopeId = scopeId := congrArg (fun k => (ofLex k).1) hown
    have hfound : s.findAction scopeId actionKey = some action := by
      rw [findAction, ← hown]
      exact s.actions.find?_of_mem hact
    rw [hfound]
    exact ⟨hkey, hscope.symm.trans hactionScope⟩
  · left
    rw [if_neg hown] at hscope hkey hret
    exact isReferenced_iff.mpr ⟨action, hact, hscope, hkey, hret⟩

theorem extendAction_actions :
    (s.extendAction scopeId actionKey deadline).actions.total (actionCharge projectId now) ≤
      s.actions.total (actionCharge projectId now) +
        if scopeId.projectId = projectId then s.lapsedResult scopeId actionKey now else 0 := by
  refine total_updateWhere_le (ActionRow.extend_key deadline)
    (k := toLex (scopeId, actionKey)) (fun row _ hne => ?_) fun row hrow => ?_
  · simp only [hne, decide_false, Bool.false_eq_true, if_false]
    exact le_refl _
  · have hkey : row.key = toLex (scopeId, actionKey) := key_of_find? hrow
    have hscope : row.scopeId = scopeId := congrArg (fun k => (ofLex k).1) hkey
    have hfound : s.findAction scopeId actionKey = some row := hrow
    simp only [hkey, decide_true, if_true, lapsedResult, hfound, actionCharge, ActionRow.extend,
      hscope]
    by_cases hproj : scopeId.projectId = projectId
    · by_cases hret : now < row.retentionUntil
      · simp [hproj, hret]
      · simp only [hproj, hret, true_and, and_false, if_false, if_true, zero_add]
        split <;> simp
    · simp [hproj]

theorem extendAction_blobs :
    s.blobs.total ((s.extendAction scopeId actionKey deadline).blobCharge projectId now) ≤
      s.blobs.total (s.blobCharge projectId now) +
        if scopeId.projectId = projectId then s.lapsedBundle scopeId actionKey now else 0 := by
  cases hbundle : (s.findAction scopeId actionKey).bind (·.blobKey) with
  | none =>
    -- nothing else refers to the action's blob
    refine Nat.le_trans (total_mono fun row _ => blobCharge_le ?_) (le_add_right _ _)
    refine isRetained_mono (fun hrefd => ?_) le_rfl
    obtain hold | ⟨hnew, -⟩ := extendAction_isReferenced hrefd
    · exact hold
    · rw [hbundle] at hnew
      cases hnew
  | some blobKey =>
    have hlapsed : s.lapsedBundle scopeId actionKey now = s.lapsedBlob scopeId blobKey now := by
      rw [lapsedBundle, hbundle]
    rw [hlapsed]
    refine total_le_of_key (k := toLex (scopeId, blobKey)) (fun row _ hne => ?_)
      fun row hrow => blobCharge_le_lapsed hrow rfl rfl
    refine blobCharge_le (isRetained_mono (fun hrefd => ?_) le_rfl)
    obtain hold | ⟨hnew, hscope⟩ := extendAction_isReferenced hrefd
    · exact hold
    · rw [hbundle, Option.some_inj] at hnew
      exact absurd (by rw [BlobRow.key, hscope, hnew]) hne

theorem extendAction_usedBytes :
    (s.extendAction scopeId actionKey deadline).usedBytes projectId now ≤
      s.usedBytes projectId now +
        if scopeId.projectId = projectId then
          s.lapsedResult scopeId actionKey now + s.lapsedBundle scopeId actionKey now
        else 0 := by
  have hacts : (s.extendAction scopeId actionKey deadline).actions.total
      (actionCharge projectId now) ≤ s.actions.total (actionCharge projectId now) +
        if scopeId.projectId = projectId then s.lapsedResult scopeId actionKey now else 0 :=
    extendAction_actions
  have hblobs : s.blobs.total
      ((s.extendAction scopeId actionKey deadline).blobCharge projectId now) ≤
        s.blobs.total (s.blobCharge projectId now) +
          if scopeId.projectId = projectId then s.lapsedBundle scopeId actionKey now else 0 :=
    extendAction_blobs
  have hused : (s.extendAction scopeId actionKey deadline).usedBytes projectId now =
      (s.extendAction scopeId actionKey deadline).actions.total (actionCharge projectId now) +
        s.blobs.total ((s.extendAction scopeId actionKey deadline).blobCharge projectId now) := rfl
  rw [hused, usedBytes]
  split at hacts
  · rename_i hproj
    rw [if_pos hproj] at hblobs ⊢
    omega
  · rename_i hproj
    rw [if_neg hproj] at hblobs ⊢
    omega

/-! ## New rows -/

theorem quotaAllows_eq_true {quotaBytes additional : Nat}
    (h : s.quotaAllows projectId quotaBytes additional now = .ok true) :
    s.usedBytes projectId now + additional ≤ quotaBytes := by
  unfold quotaAllows at h
  simp only [guard_eq_ok, Except.ok.injEq, decide_eq_true_eq] at h
  exact h.2.2

theorem number_eq_ok {value charged : Nat} (h : number value = .ok charged) : charged = value := by
  unfold number at h
  split at h
  · cases h
    rfl
  · cases h

theorem insertBlob_usedBytes (h : s.insertBlob row = .ok s') :
    s'.usedBytes projectId now ≤ s.usedBytes projectId now +
      if row.scopeId.projectId = projectId then row.chargedBytes else 0 := by
  unfold insertBlob at h
  rw [guard_eq_ok] at h
  obtain ⟨blobs, hins, h⟩ := bind_eq_ok.mp h.2
  cases h
  have htotal : blobs.total (s.blobCharge projectId now) =
      s.blobCharge projectId now row + s.blobs.total (s.blobCharge projectId now) :=
    total_insert? (okOr_eq_ok.mp hins)
  have hnew : s.blobCharge projectId now row ≤
      if row.scopeId.projectId = projectId then row.chargedBytes else 0 := by
    unfold blobCharge
    by_cases hproj : row.scopeId.projectId = projectId
    · simp only [hproj, true_and, if_true]
      split <;> simp
    · simp [hproj]
  have hused : usedBytes { s with blobs := blobs } projectId now =
      s.actions.total (actionCharge projectId now) + blobs.total (s.blobCharge projectId now) := rfl
  rw [hused, usedBytes, htotal]
  omega

/-- An action result that ends no later than its blob adds its own bytes only. -/
theorem insertAction_usedBytes {row : ActionRow} (h : s.insertAction row = .ok s')
    (hbundle : ∀ blob ∈ s.blobs.rows, blob.scopeId = row.scopeId →
      row.blobKey = some blob.blobKey → row.retentionUntil ≤ blob.retentionUntil) :
    s'.usedBytes projectId now ≤ s.usedBytes projectId now +
      if row.scopeId.projectId = projectId then row.chargedBytes else 0 := by
  unfold insertAction at h
  rw [guard_eq_ok] at h
  obtain ⟨actions, hins, h⟩ := bind_eq_ok.mp h.2
  cases h
  have hinserted := okOr_eq_ok.mp hins
  have htotal : actions.total (actionCharge projectId now) =
      actionCharge projectId now row + s.actions.total (actionCharge projectId now) :=
    total_insert? hinserted
  have hnew : actionCharge projectId now row ≤
      if row.scopeId.projectId = projectId then row.chargedBytes else 0 := by
    unfold actionCharge
    by_cases hproj : row.scopeId.projectId = projectId
    · simp only [hproj, true_and, if_true]
      split <;> simp
    · simp [hproj]
  have hblobs : s.blobs.total (blobCharge { s with actions := actions } projectId now) ≤
      s.blobs.total (s.blobCharge projectId now) := by
    refine total_mono fun blob hblob => blobCharge_le fun hret => ?_
    rw [isRetained_iff] at hret ⊢
    obtain hown | hrefd := hret
    · exact .inl hown
    · obtain ⟨action, hact, hscope, hkey, hlive⟩ := isReferenced_iff.mp hrefd
      obtain rfl | hold := (mem_insert? hinserted).mp hact
      · exact .inl (lt_of_lt_of_le hlive (hbundle blob hblob hscope.symm hkey))
      · exact .inr (isReferenced_iff.mpr ⟨action, hold, hscope, hkey, hlive⟩)
  have hused : usedBytes { s with actions := actions } projectId now =
      actions.total (actionCharge projectId now) +
        s.blobs.total (blobCharge { s with actions := actions } projectId now) := rfl
  rw [hused, usedBytes, htotal]
  omega

/-- The blob of a result that may be published is kept as long as the result. -/
theorem retainBundle_eq_some {scope : DataScope} {blobKey : Option BlobKey} {retained : CacheStore}
    (h : s.retainBundle scope blobKey = some retained) :
    (∀ blob ∈ retained.blobs.rows, blob.scopeId = scope.scopeId → blobKey = some blob.blobKey →
      scope.retentionUntil ≤ blob.retentionUntil) ∧
      ∀ {projectId now}, scope.scopeId.projectId ≠ projectId →
        retained.usedBytes projectId now ≤ s.usedBytes projectId now := by
  unfold retainBundle at h
  cases blobKey with
  | none =>
    cases h
    exact ⟨(fun _ _ _ hkey => nomatch hkey), fun _ => le_refl _⟩
  | some key =>
    simp only at h
    split at h
    · cases h
    · split at h
      · cases h
        constructor
        · intro blob hblob hscope hkey
          cases hkey
          obtain ⟨before, -, hblob⟩ := mem_extendBlob.mp hblob
          split at hblob
          · rw [← hblob]
            exact le_max_right _ _
          · rename_i hother
            rw [← hblob] at hscope hother
            exact absurd (by rw [BlobRow.key, hscope]) hother
        · intro projectId now hproj
          have hused : (s.extendBlob scope.scopeId key scope.retentionUntil).usedBytes projectId now ≤
              s.usedBytes projectId now + if scope.scopeId.projectId = projectId then
                s.lapsedBlob scope.scopeId key now else 0 := extendBlob_usedBytes
          rw [if_neg hproj] at hused
          exact hused
      · cases h

/-! ## Steps -/

/-- The bytes of the rows a request finds again that are not charged any more. -/
def lapsedBytes (s : CacheStore) : CacheTransaction → Nat
  | .prepareBlob session access blob =>
    session.elim 0 fun row => s.lapsedBlob row.scopeId (cacheBlobKey blob) access.observedAt
  | .publishBlob session request =>
    session.elim 0 fun row =>
      s.lapsedBlob row.scopeId (cacheBlobKey request.blob) request.access.observedAt
  | .publishAction session request =>
    session.elim 0 fun row =>
      s.lapsedResult row.scopeId request.action request.access.observedAt +
        s.lapsedBundle row.scopeId request.action request.access.observedAt
  | .prune _ _ => 0

/-- A request that keeps the rows it finds again longer; others are refused or leave them alone. -/
def Extends (s : CacheStore) : CacheTransaction → Prop
  | .prepareBlob session access blob =>
    ∃ scope row, authorizeData session access (some .write) = .ok scope ∧
      s.findBlob scope.scopeId (cacheBlobKey blob) = some row ∧ row.descriptor = blob
  | .publishBlob session request =>
    ∃ scope row, authorizeData session request.access (some .write) = .ok scope ∧
      s.findBlob scope.scopeId (cacheBlobKey request.blob) = some row ∧
      row.descriptor = request.blob ∧ row.publishedAt = none
  | .publishAction session request =>
    ∃ scope row, authorizeData session request.access (some .write) = .ok scope ∧
      s.findAction scope.scopeId request.action = some row ∧ row.result = request.result
  | .prune _ _ => False

/-- What a request keeps longer is still charged, or fits into the quota. -/
def Refits (s : CacheStore) (projectId : ProjectId) (quota : Nat) (t : CacheTransaction) : Prop :=
  s.Extends t →
    s.lapsedBytes t = 0 ∨ s.usedBytes projectId t.observedAt + s.lapsedBytes t ≤ quota

/-- What a successful request of a session may charge a Project: `lapsed` bytes, if it keeps rows
    longer and the session is of the Project, or what the quota of the session allows. -/
def Charges (projectId : ProjectId) (now : Timestamp) (s s' : CacheStore)
    (session : Option DataAuthorizationRow) (extended : Prop) (lapsed : DataAuthorizationRow → Nat) :
    Prop :=
  ∃ row, session = some row ∧
    (s'.usedBytes projectId now ≤ s.usedBytes projectId now ∨
      extended ∧ s'.usedBytes projectId now ≤
        s.usedBytes projectId now + (if row.projectId = projectId then lapsed row else 0) ∨
      row.projectId = projectId ∧ s'.usedBytes projectId now ≤ row.quotaBytes)

variable {session : Option DataAuthorizationRow} {access : CacheDataAccess}

theorem prepareBlob_charges {blob : BlobDescriptor} {outcome : CacheBlobPreparationOutcome}
    (h : s.prepareBlob rules session access blob = .ok (outcome, s')) :
    Charges projectId access.observedAt s s' session (s.Extends (.prepareBlob session access blob))
      fun row =>
      s.lapsedBlob row.scopeId (cacheBlobKey blob) access.observedAt := by
  unfold prepareBlob at h
  rw [guard_eq_ok] at h
  obtain ⟨scope, hscope, h⟩ := bind_eq_ok.mp h.2
  obtain ⟨row, rfl, rfl⟩ := authorizeData_eq_ok hscope
  refine ⟨row, rfl, ?_⟩
  simp only at h
  split at h
  · -- a row that is found again
    rename_i existing hfound
    rw [guard_eq_ok, not_not] at h
    obtain ⟨hsame, h⟩ := h
    cases h
    exact .inr (.inl ⟨⟨_, existing, hscope, hfound, hsame⟩, extendBlob_usedBytes⟩)
  · obtain ⟨allowed, hquota, h⟩ := bind_eq_ok.mp h
    cases allowed with
    | false =>
      cases h
      exact .inl (le_refl _)
    | true =>
      obtain ⟨charged, hcharged, h⟩ := bind_eq_ok.mp h
      obtain ⟨after, hins, h⟩ := bind_eq_ok.mp h
      cases h
      obtain rfl := number_eq_ok hcharged
      have hused : s'.usedBytes projectId access.observedAt ≤ _ := insertBlob_usedBytes hins
      by_cases hproj : row.projectId = projectId
      · right; right
        have hallow := quotaAllows_eq_true hquota
        rw [show row.scopeId.projectId = row.projectId from rfl, if_pos hproj] at hused
        subst hproj
        exact ⟨rfl, Nat.le_trans hused hallow⟩
      · left
        rw [show row.scopeId.projectId = row.projectId from rfl, if_neg hproj] at hused
        exact hused

theorem publishBlob_charges {request : PublishCacheBlob} {outcome : CachePublicationOutcome}
    (h : s.publishBlob rules session request = .ok (outcome, s')) :
    Charges projectId request.access.observedAt s s' session
      (s.Extends (.publishBlob session request)) fun row =>
      s.lapsedBlob row.scopeId (cacheBlobKey request.blob) request.access.observedAt := by
  unfold publishBlob at h
  rw [guard_eq_ok] at h
  obtain ⟨scope, hscope, h⟩ := bind_eq_ok.mp h.2
  obtain ⟨row, rfl, rfl⟩ := authorizeData_eq_ok hscope
  refine ⟨row, rfl, ?_⟩
  simp only at h
  split at h
  · cases h
    exact .inl (le_refl _)
  · rename_i existing hfound
    split at h
    · cases h
      exact .inl (le_refl _)
    · rename_i hsame
      split at h
      · cases h
        exact .inl (le_refl _)
      · rename_i hunpublished
        obtain ⟨after, hpub, h⟩ := bind_eq_ok.mp h
        cases h
        exact .inr (.inl ⟨⟨_, existing, hscope, hfound, not_not.mp hsame,
          Option.not_isSome_iff_eq_none.mp hunpublished⟩, setPublished_usedBytes hfound hpub⟩)

theorem publishAction_charges {request : PublishCacheAction} {outcome : CachePublicationOutcome}
    (h : s.publishAction rules session request = .ok (outcome, s')) :
    Charges projectId request.access.observedAt s s' session
      (s.Extends (.publishAction session request)) fun row =>
      s.lapsedResult row.scopeId request.action request.access.observedAt +
        s.lapsedBundle row.scopeId request.action request.access.observedAt := by
  unfold publishAction at h
  rw [guard_eq_ok] at h
  obtain ⟨scope, hscope, h⟩ := bind_eq_ok.mp h.2
  obtain ⟨row, rfl, rfl⟩ := authorizeData_eq_ok hscope
  refine ⟨row, rfl, ?_⟩
  simp only at h
  split at h
  · rename_i existing hfound
    split at h
    · cases h
      exact .inl (le_refl _)
    · rename_i hsame
      cases h
      exact .inr (.inl ⟨⟨_, existing, hscope, hfound, not_not.mp hsame⟩, extendAction_usedBytes⟩)
  · split at h
    · cases h
      exact .inl (le_refl _)
    · rename_i retained hretain
      obtain ⟨allowed, hquota, h⟩ := bind_eq_ok.mp h
      cases allowed with
      | false =>
        cases h
        exact .inl (le_refl _)
      | true =>
        obtain ⟨charged, hcharged, h⟩ := bind_eq_ok.mp h
        obtain ⟨after, hins, h⟩ := bind_eq_ok.mp h
        cases h
        obtain rfl := number_eq_ok hcharged
        obtain ⟨hbundle, hother⟩ := retainBundle_eq_some hretain
        have hused : s'.usedBytes projectId request.access.observedAt ≤ _ :=
          insertAction_usedBytes hins hbundle
        by_cases hproj : row.projectId = projectId
        · right; right
          have hallow := quotaAllows_eq_true hquota
          rw [show row.scopeId.projectId = row.projectId from rfl, if_pos hproj] at hused
          subst hproj
          exact ⟨rfl, Nat.le_trans hused hallow⟩
        · left
          rw [show row.scopeId.projectId = row.projectId from rfl, if_neg hproj] at hused
          exact Nat.le_trans hused (hother hproj)

theorem step_within_quota {t : CacheTransaction} {quota : Nat}
    (hused : s.usedBytes projectId t.observedAt ≤ quota)
    (hquota : ∀ row, t.session = some row → row.projectId = projectId →
      (row.quotaBytes : Nat) = quota)
    (hrefits : t.session.map (·.projectId) = some projectId → s.Refits projectId quota t) :
    (s.step rules t).usedBytes projectId t.observedAt ≤ quota := by
  have hcharges : ∀ {s' : CacheStore} {session : Option DataAuthorizationRow}
      {lapsed : DataAuthorizationRow → Nat}, t.session = session →
      (∀ row, session = some row → lapsed row = s.lapsedBytes t) →
      Charges projectId t.observedAt s s' session (s.Extends t) lapsed →
      s'.usedBytes projectId t.observedAt ≤ quota := by
    rintro s' session lapsed hsession hlapsed
      ⟨row, rfl, hchrg | ⟨hextends, hchrg⟩ | ⟨hproj, hchrg⟩⟩
    · exact Nat.le_trans hchrg hused
    · by_cases hproj : row.projectId = projectId
      · rw [if_pos hproj, hlapsed row rfl] at hchrg
        have hfits := hrefits (by rw [hsession, Option.map_some, hproj]) hextends
        omega
      · rw [if_neg hproj] at hchrg
        omega
    · rw [hquota row hsession hproj] at hchrg
      exact hchrg
  unfold step
  cases hres : s.execute rules t with
  | error _ => exact hused
  | ok s' =>
    cases t with
    | prepareBlob session access blob =>
      obtain ⟨outcome, h⟩ := map_snd_eq_ok hres
      exact hcharges rfl (by rintro row rfl; rfl) (prepareBlob_charges h)
    | publishBlob session request =>
      obtain ⟨outcome, h⟩ := map_snd_eq_ok hres
      exact hcharges rfl (by rintro row rfl; rfl) (publishBlob_charges h)
    | publishAction session request =>
      obtain ⟨outcome, h⟩ := map_snd_eq_ok hres
      exact hcharges rfl (by rintro row rfl; rfl) (publishAction_charges h)
    | prune session access =>
      obtain ⟨deleted, h⟩ := map_snd_eq_ok hres
      exact Nat.le_trans (prune_usedBytes h) hused

/-! ## Runs -/

theorem run_append (before : List CacheTransaction) (t : CacheTransaction) :
    run rules s (before ++ [t]) = (run rules s before).step rules t := by
  rw [run, foldl_append]
  rfl

theorem initial_usedBytes : CacheStore.initial.usedBytes projectId now = 0 := rfl

/-- In a run whose times do not decrease and whose sessions of a Project share
    one quota, the Project's charged bytes are within the quota after every
    request, if every request of the Project keeps no lapsed row longer or what it
    keeps fits. -/
theorem run_within_quota {transactions : List CacheTransaction} {quota : Nat}
    (hord : (transactions.map (·.observedAt)).Pairwise (· ≤ ·))
    (hquota : ∀ t ∈ transactions, ∀ row, t.session = some row → row.projectId = projectId →
      (row.quotaBytes : Nat) = quota)
    (hrefits : ∀ before t after, transactions = before ++ t :: after →
      t.session.map (·.projectId) = some projectId →
        (run rules .initial before).Refits projectId quota t) :
    ∀ before t after, transactions = before ++ t :: after →
      (run rules .initial (before ++ [t])).usedBytes projectId t.observedAt ≤ quota := by
  -- at any time after a prefix of the run the quota holds
  have hprefix : ∀ before after, transactions = before ++ after → ∀ now,
      (∀ t ∈ before, t.observedAt ≤ now) →
        (run rules .initial before).usedBytes projectId now ≤ quota := by
    intro before
    induction before using List.reverseRecOn with
    | nil => exact fun _ _ now _ => Nat.le_trans (le_of_eq initial_usedBytes) (zero_le _)
    | append_singleton before t ih =>
      intro after hsplit now hnow
      have hsplit' : transactions = before ++ t :: after := by rw [hsplit, append_assoc]; rfl
      have hbef : ∀ earlier ∈ before, earlier.observedAt ≤ t.observedAt := by
        rw [hsplit', map_append, pairwise_append] at hord
        intro earlier hearl
        exact hord.2.2 _ (mem_map_of_mem hearl) _ mem_cons_self
      rw [run_append]
      refine Nat.le_trans (usedBytes_antitone (hnow t (mem_append_right _
        mem_cons_self))) (step_within_quota (ih (t :: after) hsplit' _ hbef)
        (hquota t ?_) (hrefits before t after hsplit'))
      rw [hsplit']
      exact mem_append_right _ mem_cons_self
  intro before t after hsplit
  refine hprefix (before ++ [t]) after (by rw [hsplit, append_assoc]; rfl) _ ?_
  intro earlier hearl
  rw [hsplit, map_append, pairwise_append] at hord
  obtain hbef | hown := mem_append.mp hearl
  · exact hord.2.2 _ (mem_map_of_mem hbef) _ mem_cons_self
  · rw [mem_singleton.mp hown]

namespace Sample

/-- The blob of the first namespace expires at 10 and gives room to another one
    at 11; reserved again at 12 it is kept until 40. -/
def overdrawn : List CacheTransaction :=
  [prepare "first" 10 1 1, prepare "second" 30 11 2, prepare "first" 40 12 1]

/-- All sessions have a quota of 100 bytes, and 120 are charged at the end. -/
theorem quota_exceeded : (overdrawn.map (·.observedAt)).Pairwise (· ≤ ·) ∧
      (∀ t ∈ overdrawn, ∀ row, t.session = some row →
        row.projectId = ⟨1⟩ ∧ (row.quotaBytes : Nat) = 100) ∧
      (run acceptAll .initial overdrawn).usedBytes ⟨1⟩ (instant 12) = 120 := by
  refine ⟨by decide, ?_, by decide⟩
  intro t ht row hrow
  simp only [overdrawn, mem_cons, not_mem_nil, or_false] at ht
  obtain rfl | rfl | rfl := ht <;> cases hrow <;> exact ⟨rfl, rfl⟩

/-- A blob that is reserved again before it expires is charged once. -/
theorem quota_kept :
    (run acceptAll .initial [prepare "first" 10 1 1, prepare "first" 40 9 1]).usedBytes ⟨1⟩
      (instant 9) ≤ 100 := by
  refine @run_within_quota acceptAll ⟨1⟩ [prepare "first" 10 1 1, prepare "first" 40 9 1] 100
    (by decide) (fun t ht row hrow _ => ?_) (fun before t after hsplit _ => ?_)
    [prepare "first" 10 1 1] (prepare "first" 40 9 1) [] rfl
  · simp only [mem_cons, not_mem_nil, or_false] at ht
    obtain rfl | rfl := ht <;> cases hrow <;> rfl
  · rcases before with _ | ⟨first, _ | ⟨second, rest⟩⟩
    · cases hsplit
      exact fun _ => .inl (by decide)
    · cases hsplit
      exact fun _ => .inl (by decide)
    · cases rest <;> cases hsplit

end Sample

end CacheStore

end OctaCity.Cache
