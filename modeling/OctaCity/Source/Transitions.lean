/-
  OctaCity.Source.Transitions

  What each call of the source store changes: a claim proves itself before any
  write, a scan keeps its identity and a fence that only rises, and a retained
  preparation keeps what it was reserved with.
-/
import OctaCity.Source.Routes
import OctaCity.Source.Store

namespace OctaCity.Source

open Domain Lib
open Factory (FactoryDigest FactoryKey)

/-! ## Preparations -/

namespace WorkSourcePreparation

/-- What every call but a cleanup leaves of a preparation. -/
structure Keeps (a b : WorkSourcePreparation) : Prop where
  id : b.id = a.id
  issue : b.issue = a.issue
  input : b.input = a.input
  item : b.item = a.item
  target : b.target = a.target
  reservedAt : b.reservedAt = a.reservedAt
  snapshotExpiresAt : b.snapshotExpiresAt = a.snapshotExpiresAt
  snapshot : b.snapshot = a.snapshot
  policy : ∀ policy, a.policy = some policy → b.policy = some policy
  frozen : a.snapshot = [] → b.policy = a.policy
  intent : ∀ intent, a.intent = some intent → b.intent = some intent

/-- What any run leaves of a preparation. -/
structure Retains (a b : WorkSourcePreparation) : Prop where
  id : b.id = a.id
  issue : b.issue = a.issue
  input : b.input = a.input
  item : b.item = a.item
  target : b.target = a.target
  reservedAt : b.reservedAt = a.reservedAt
  snapshotExpiresAt : b.snapshotExpiresAt = a.snapshotExpiresAt
  snapshot : b.snapshot = a.snapshot ∨ b.snapshot = []
  policy : ∀ policy, a.policy = some policy →
    b.policy = some policy ∨ b.policy = none ∧ b.snapshot = []
  gone : a.snapshot = [] → a.policy = none → b.policy = none
  intent : ∀ intent, a.intent = some intent → b.intent = some intent

variable {a b c : WorkSourcePreparation}

theorem Keeps.refl (a : WorkSourcePreparation) : a.Keeps a :=
  ⟨rfl, rfl, rfl, rfl, rfl, rfl, rfl, rfl, fun _ h => h, fun _ => rfl, fun _ h => h⟩

theorem Keeps.retains (h : a.Keeps b) : a.Retains b :=
  ⟨h.id, h.issue, h.input, h.item, h.target, h.reservedAt, h.snapshotExpiresAt, .inl h.snapshot,
    fun policy hp => .inl (h.policy policy hp), fun hgone hp => (h.frozen hgone).trans hp, h.intent⟩

/-- A cleanup drops the snapshot and the policy. -/
theorem cleared_retains (a : WorkSourcePreparation) : a.Retains a.cleared :=
  ⟨rfl, rfl, rfl, rfl, rfl, rfl, rfl, .inr rfl, fun _ _ => .inr ⟨rfl, rfl⟩, fun _ _ => rfl,
    fun _ h => h⟩

theorem Retains.refl (a : WorkSourcePreparation) : a.Retains a := (Keeps.refl a).retains

theorem Retains.trans (h : a.Retains b) (h' : b.Retains c) : a.Retains c where
  id := h'.id.trans h.id
  issue := h'.issue.trans h.issue
  input := h'.input.trans h.input
  item := h'.item.trans h.item
  target := h'.target.trans h.target
  reservedAt := h'.reservedAt.trans h.reservedAt
  snapshotExpiresAt := h'.snapshotExpiresAt.trans h.snapshotExpiresAt
  snapshot := by
    rcases h'.snapshot with heq | hgone
    · rw [heq]
      exact h.snapshot
    · exact .inr hgone
  policy := by
    intro policy hpol
    rcases h.policy policy hpol with hkept | ⟨hcleared, hgone⟩
    · exact h'.policy policy hkept
    · -- Nothing freezes a policy again once the snapshot is gone.
      refine .inr ⟨h'.gone hgone hcleared, ?_⟩
      rcases h'.snapshot with heq | hempty
      · rw [heq, hgone]
      · exact hempty
  gone := by
    intro hgone hcleared
    refine h'.gone ?_ (h.gone hgone hcleared)
    rcases h.snapshot with heq | hempty
    · rw [heq, hgone]
    · exact hempty
  intent := fun intent hintent => h'.intent intent (h.intent intent hintent)

/-- An intent is published once, and a later one must equal it. -/
theorem withIntent_eq_ok {digests : SourceDigests} {request : PublishSourcePreparationIntent}
    (h : a.withIntent digests request = .ok b) : a.Keeps b ∧ b.admission = a.admission := by
  obtain ⟨hmatch, h⟩ := guard_eq_ok.mp h
  cases h
  refine ⟨⟨rfl, rfl, rfl, rfl, rfl, rfl, rfl, rfl, fun _ h => h, fun _ => rfl, ?_⟩, rfl⟩
  intro intent hintent
  -- A second intent must be the first one.
  have hsame : ¬ a.intent.any (· ≠ request.intent) := fun hne =>
    hmatch (.inr (.inr (.inr (.inr (.inr (.inr hne))))))
  rw [hintent] at hsame
  have heq : intent = request.intent := by
    by_contra hne
    exact hsame (decide_eq_true hne)
  show some request.intent = some intent
  rw [heq]

/-- A recorded wait leaves what the preparation holds. -/
theorem recordWait_eq_ok {request : DeferSourcePreparation} {wait : WorkSourceWait}
    (h : a.recordWait request = .ok (b, wait)) : a.Keeps b ∧ b.admission = a.admission := by
  obtain ⟨-, h⟩ := guard_eq_ok.mp h
  cases h
  exact ⟨⟨rfl, rfl, rfl, rfl, rfl, rfl, rfl, rfl, fun _ h => h, fun _ => rfl, fun _ h => h⟩, rfl⟩

/-- A policy is frozen once; its snapshot is kept until it is cleaned up. -/
theorem retain_eq_ok {digests : SourceDigests} {request : FreezeSourcePreparationPolicy}
    {current : Option SourceMaterialization} (h : request.retain digests a current = .ok b) :
    a.Keeps b ∧ b.admission = a.admission := by
  obtain ⟨hmatch, h⟩ := guard_eq_ok.mp h
  cases h
  refine ⟨⟨rfl, rfl, rfl, rfl, rfl, rfl, rfl, rfl, ?_, ?_, fun _ h => h⟩, rfl⟩
  · intro policy hpol
    have hsame : ¬ a.policy.any (· ≠ request.policy) := fun hne =>
      hmatch (.inr (.inr (.inr (.inl hne))))
    rw [hpol] at hsame
    have heq : policy = request.policy := by
      by_contra hne
      exact hsame (decide_eq_true hne)
    show some request.policy = some policy
    rw [heq]
  · intro hgone
    exact absurd (.inr (.inl hgone)) hmatch

/-- A correlation changes no part of the preparation that a run reads again. -/
theorem keeps_correlate (a : WorkSourcePreparation) (receipt : WorkSourceCorrelation) :
    a.Keeps (a.correlate receipt) :=
  ⟨rfl, rfl, rfl, rfl, rfl, rfl, rfl, rfl, fun _ h => h, fun _ => rfl, fun _ h => h⟩

end WorkSourcePreparation

/-! ## Scans and their claims -/

/-- A scan keeps its identity, and its fence does not go back. -/
structure WorkSourceScan.Follows (a b : WorkSourceScan) : Prop where
  identity : b.claim.target.identity = a.claim.target.identity
  fence : a.claim.fence ≤ b.claim.fence

theorem WorkSourceScan.Follows.refl (a : WorkSourceScan) : a.Follows a := ⟨rfl, Nat.le_refl _⟩

theorem WorkSourceScan.Follows.trans {a b c : WorkSourceScan} (h : a.Follows b) (h' : b.Follows c) :
    a.Follows c :=
  ⟨h'.identity.trans h.identity, h.fence.trans h'.fence⟩

/-- A new claim is above the one it replaces. -/
theorem nextSourceScan_eq_ok {request : ClaimWorkSourceScan} {current : Option WorkSourceScan}
    {scan : WorkSourceScan} (h : nextSourceScan request current = .ok (some scan)) :
    scan.claim.target = request.target ∧ ∀ earlier, current = some earlier →
      earlier.claim.fence < scan.claim.fence := by
  unfold nextSourceScan at h
  dsimp only at h
  obtain ⟨-, h⟩ := guard_eq_ok.mp h
  split at h
  · cases h
  · split at h
    · cases h
    · obtain ⟨fence, hfence, h⟩ := bind_eq_ok.mp h
      cases h
      refine ⟨rfl, ?_⟩
      rintro earlier rfl
      obtain ⟨-, hnext⟩ := guard_eq_ok.mp hfence
      cases hnext
      exact Nat.lt_succ_self _

variable {scan' : WorkSourceScan}

/-- A selection is recorded under the claim it was made with. -/
theorem recordSourceSelection_eq_ok {scan : WorkSourceScan} {claim : WorkSourceScanClaim}
    {now : Timestamp} {members : List WorkSourceInput} {item : WorkSourceItem} {matched : List Nat}
    (h : recordSourceSelection scan claim now members item matched = .ok scan') :
    scan'.claim = scan.claim := by
  obtain ⟨-, h⟩ := check_eq_ok.mp h
  obtain ⟨-, h⟩ := guard_eq_ok.mp h
  cases h
  rfl

namespace SourceStore

variable {digests : SourceDigests} {store store' : SourceStore} {claim : WorkSourceScanClaim}
  {now : Timestamp} {scan : WorkSourceScan} {preparation : WorkSourcePreparation}

/-- A claim is the newest of its target, of a current version, and within its time. -/
structure Holds (store : SourceStore) (claim : WorkSourceScanClaim) (now : Timestamp) : Prop where
  newest : ∃ scan, store.loadScan claim.target = some scan ∧ scan.claim = claim
  current : store.tables.requireCurrent claim.projectId claim.target = .ok ()
  acquired : claim.acquiredAt ≤ now
  live : now < claim.deadline

/-- Only the holder of the newest claim gets past the lock. -/
theorem lockClaim_eq_ok (h : store.lockClaim claim now = .ok scan) :
    store.Holds claim now ∧ store.loadScan claim.target = some scan ∧ scan.claim = claim := by
  obtain ⟨-, h⟩ := check_eq_ok.mp h
  obtain ⟨hcur, h⟩ := check_eq_ok.mp h
  obtain ⟨found, hfound, h⟩ := bind_eq_ok.mp h
  obtain ⟨hrequire, h⟩ := check_eq_ok.mp h
  cases h
  obtain ⟨hmatch, -⟩ := guard_eq_ok.mp hrequire
  obtain ⟨hclaim, htimes⟩ := not_or.mp hmatch
  obtain ⟨hacq, hlive⟩ := not_or.mp htimes
  have hload := okOr_eq_ok.mp hfound
  have hsame := not_not.mp hclaim
  exact ⟨⟨⟨scan, hload, hsame⟩, hcur, not_lt.mp hacq, not_le.mp hlive⟩, hload, hsame⟩

theorem loadPreparation_eq_ok {project : Nat} {id : FactoryDigest}
    (h : store.loadPreparation project id = .ok preparation) :
    store.preparations.find? id = some preparation ∧ preparation.input.projectId = project := by
  have hfilt := okOr_eq_ok.mp h
  rw [Option.filter_eq_some_iff] at hfilt
  exact ⟨hfilt.1, of_decide_eq_true hfilt.2⟩

/-- The owner of a preparation holds the claim of its own Project. -/
theorem owner_eq_ok {id : FactoryDigest} (h : store.owner claim id now = .ok (scan, preparation)) :
    store.Holds claim now ∧ store.loadScan claim.target = some scan ∧ scan.claim = claim ∧
      store.preparations.find? id = some preparation ∧
      preparation.input.projectId = claim.projectId := by
  obtain ⟨locked, hlock, h⟩ := bind_eq_ok.mp h
  obtain ⟨found, hfound, h⟩ := bind_eq_ok.mp h
  obtain ⟨selected, -, h⟩ := bind_eq_ok.mp h
  obtain ⟨-, h⟩ := check_eq_ok.mp h
  cases h
  obtain ⟨hholds, hload, hclaim⟩ := lockClaim_eq_ok hlock
  obtain ⟨hfind, hproj⟩ := loadPreparation_eq_ok hfound
  exact ⟨hholds, hload, hclaim, hfind, hproj⟩

variable {target : WorkSourceScanTarget}

section

variable (hload : store.loadScan target = some scan)

include hload

theorem loadScan_identity : scan.claim.target.identity = target.identity := by
  have hkey : scan.identity = toLex target.identity := Table.key_of_find? hload
  exact toLex.injective hkey

/-- A saved scan follows the scan it replaces. -/
theorem saveScan_grows (htgt : scan'.claim.target.identity = target.identity)
    (hfence : scan.claim.fence ≤ scan'.claim.fence) :
    store.scans.Grows WorkSourceScan.Follows (store.saveScan scan').scans := by
  have hfind : store.scans.find? scan'.identity = some scan := by
    show store.scans.find? (toLex scan'.claim.target.identity) = some scan
    rw [htgt]
    exact hload
  exact (Table.sets_put store.scans scan').grows WorkSourceScan.Follows.refl hfind
    ⟨htgt.trans (loadScan_identity hload).symm, hfence⟩

theorem saveScan_same (hclaim : scan'.claim = scan.claim) :
    store.scans.Grows WorkSourceScan.Follows (store.saveScan scan').scans := by
  refine saveScan_grows hload ?_ ?_
  · rw [hclaim]
    exact loadScan_identity hload
  · rw [hclaim]

end

/-- A saved preparation is found, and every other as before. -/
theorem find?_save (saved : WorkSourcePreparation) (id : FactoryDigest) :
    (store.savePreparation saved).preparations.find? id =
      if id = saved.id then some saved else store.preparations.find? id := by
  by_cases hid : id = saved.id
  · rw [if_pos hid, hid]
    exact Table.find?_put_self
  · rw [if_neg hid]
    exact Table.find?_put_of_ne hid

end SourceStore

end OctaCity.Source
