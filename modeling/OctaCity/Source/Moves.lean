/-
  OctaCity.Source.Moves

  One call of the source store, whichever it is: the tables change by a
  publication only, a scan and a retained preparation are followed from row to
  row, and an admission names a Work of the identity of its preparation.
-/
import OctaCity.Source.Transitions

namespace OctaCity.Source

open Domain Lib WorkSourcePreparation
open Factory (FactoryDigest FactoryKey)

/-- The claim that a call proves and the time it proves it at. -/
def SourceEvent.claim? : SourceEvent → Option (WorkSourceScanClaim × Timestamp)
  | .publish _ _ => none
  | .claim _ => none
  | .checkpoint held now _ _ => some (held, now)
  | .select held now _ _ => some (held, now)
  | .finish held now _ => some (held, now)
  | .expirePage _ _ => none
  | .reserve request _ _ => some (request.claim, request.now)
  | .defer request => some (request.claim, request.now)
  | .freezePolicy request => some (request.claim, request.now)
  | .publishIntent request => some (request.claim, request.now)
  | .reserveArtifacts request => some (request.claim, request.now)
  | .publishArtifacts request => some (request.claim, request.now)
  | .reject request => some (request.claim, request.now)
  | .completeCleanup _ _ _ => none
  | .admitPrepared guard _ _ => some (guard.claim, guard.now)

/-- The identity that a preparation is admitted under in a security scope. -/
def WorkSourcePreparation.identityIn (digests : SourceDigests) (preparation : WorkSourcePreparation)
    (scope : FactoryKey) : FactoryAdmissionIdentity where
  projectId := preparation.input.projectId
  installation := preparation.input.definition.source.installation.identity
  securityScope := scope
  externalIdentity := preparation.admissionIdentity digests

/-- Whether the identities of a preparation are the digests of its own ticket and input. -/
structure WorkSourcePreparation.Identified (digests : SourceDigests)
    (preparation : WorkSourcePreparation) : Prop where
  id : preparation.id = digests.preparation preparation.issue preparation.input.id
  issue : preparation.issue = digests.issue preparation.input.projectId
    preparation.input.definition.source.installation.identity preparation.item

namespace SourceStore

variable {digests : SourceDigests} {store store' : SourceStore} {event : SourceEvent}

/-- What a committed call changed. -/
structure Moves (digests : SourceDigests) (store : SourceStore) (event : SourceEvent)
    (store' : SourceStore) : Prop where
  tables : store'.tables = store.tables ∨ ∃ request checks, event = .publish request checks ∧
    store.tables.publish request checks = .ok store'.tables
  scans : store.scans.Grows WorkSourceScan.Follows store'.scans
  held : ∀ claim now, event.claim? = some (claim, now) → store.Holds claim now
  kept : ∀ id a, store.preparations.find? id = some a →
    ∃ b, store'.preparations.find? id = some b ∧
      (a.Keeps b ∨ (∃ expected now recheckAt, event = .completeCleanup expected now recheckAt) ∧
        b = a.cleared)
  fresh : ∀ id b, store'.preparations.find? id = some b → store.preparations.find? id = none →
    b.Identified digests ∧ b.admission = none
  admitted : ∀ id a b, store.preparations.find? id = some a →
    store'.preparations.find? id = some b → b.admission = a.admission ∨
      ∃ guard request checks, event = .admitPrepared guard request checks ∧
        request.identity = a.identityIn digests request.identity.securityScope ∧
        ∃ work ∈ store'.works, work.identity = request.identity ∧ b.admission = some work.receipt
  works : store'.works = store.works ∨
    ∃ guard request checks work, event = .admitPrepared guard request checks ∧
      store'.works = store.works ++ [work] ∧ work.identity = request.identity ∧
      ∀ earlier ∈ store.works, earlier.identity ≠ work.identity

/-! ## Calls that touch one table -/

variable {preparation : WorkSourcePreparation} {claim : WorkSourceScanClaim} {now : Timestamp}
  {guard : AdmitPreparedWorkSource} {request : AdmitFactoryWork}

theorem scans_refl : store.scans.Grows WorkSourceScan.Follows store.scans :=
  .refl WorkSourceScan.Follows.refl _

section

variable (htables : store'.tables = store.tables)
  (hscans : store.scans.Grows WorkSourceScan.Follows store'.scans)
  (hworks : store'.works = store.works)
  (hheld : ∀ claim now, event.claim? = some (claim, now) → store.Holds claim now)

include htables hscans hworks hheld

/-- A call that leaves every preparation as it is. -/
theorem moves_of_scans (hpreps : store'.preparations = store.preparations) :
    Moves digests store event store' where
  tables := .inl htables
  scans := hscans
  held := hheld
  kept := by
    intro id a hfind
    rw [hpreps]
    exact ⟨a, hfind, .inl (.refl a)⟩
  fresh := by
    intro id b hfind hnone
    rw [hpreps, hnone] at hfind
    cases hfind
  admitted := by
    intro id a b ha hb
    rw [hpreps] at hb
    cases ha.symm.trans hb
    exact .inl rfl
  works := .inl hworks

/-- A call that rewrites one preparation, without an admission. -/
theorem moves_of_save {saved : WorkSourcePreparation}
    (hpreps : store'.preparations = (store.savePreparation saved).preparations)
    (hfind : store.preparations.find? preparation.id = some preparation)
    (hkeeps : preparation.Keeps saved) (hadmis : saved.admission = preparation.admission) :
    Moves digests store event store' where
  tables := .inl htables
  scans := hscans
  held := hheld
  kept := by
    intro id a ha
    rw [hpreps, find?_save]
    split
    · rename_i hid
      rw [hid, hkeeps.id] at ha
      cases ha.symm.trans hfind
      exact ⟨saved, rfl, .inl hkeeps⟩
    · exact ⟨a, ha, .inl (.refl a)⟩
  fresh := by
    intro id b hb hnone
    rw [hpreps, find?_save] at hb
    split at hb
    · rename_i hid
      rw [hid, hkeeps.id, hfind] at hnone
      cases hnone
    · rw [hnone] at hb
      cases hb
  admitted := by
    intro id a b ha hb
    rw [hpreps, find?_save] at hb
    split at hb
    · rename_i hid
      rw [hid, hkeeps.id] at ha
      cases ha.symm.trans hfind
      cases hb
      exact .inl hadmis
    · cases ha.symm.trans hb
      exact .inl rfl
  works := .inl hworks

end

/-- The claim of a call is the one its owner check proved. -/
theorem held_of (hholds : store.Holds claim now) (hclaim : event.claim? = some (claim, now)) :
    ∀ claim' now', event.claim? = some (claim', now') → store.Holds claim' now' := by
  intro claim' now' heq
  cases hclaim.symm.trans heq
  exact hholds

theorem id_of_find? {id : FactoryDigest} (h : store.preparations.find? id = some preparation) :
    store.preparations.find? preparation.id = some preparation := by
  rw [Table.key_of_find? h]
  exact h

/-! ## The calls -/

theorem publish_moves {request : PublishWorkSources} {checks : PublicationChecks}
    (h : store.publish request checks = .ok store') :
    Moves digests store (.publish request checks) store' := by
  obtain ⟨tables, htables, h⟩ := bind_eq_ok.mp h
  cases h
  have hidle : Moves digests store (.publish request checks) store :=
    moves_of_scans rfl scans_refl rfl (fun _ _ => nofun) rfl
  exact ⟨.inr ⟨request, checks, rfl, htables⟩, hidle.scans, hidle.held, hidle.kept, hidle.fresh,
    hidle.admitted, hidle.works⟩

theorem claimScan_moves {request : ClaimWorkSourceScan} {next : Option WorkSourceScan}
    (h : store.claimScan request = .ok (store', next)) :
    Moves digests store (.claim request) store' := by
  obtain ⟨-, h⟩ := check_eq_ok.mp h
  obtain ⟨-, h⟩ := check_eq_ok.mp h
  obtain ⟨found, hnext, h⟩ := bind_eq_ok.mp h
  cases h
  cases next with
  | none =>
    exact moves_of_scans rfl scans_refl rfl (fun _ _ => nofun) rfl
  | some scan =>
    refine moves_of_scans rfl ?_ rfl (fun _ _ => nofun) rfl
    obtain ⟨htgt, habove⟩ := nextSourceScan_eq_ok hnext
    cases hload : store.loadScan request.target with
    | some current =>
      exact saveScan_grows hload (by rw [htgt]) (Nat.le_of_lt (habove current hload))
    | none =>
      -- The first claim of an identity replaces nothing.
      intro key other hother
      refine ⟨other, ?_, .refl other⟩
      have hne : key ≠ scan.identity := by
        rintro rfl
        have hnone : store.scans.find? scan.identity = none := by
          show store.scans.find? (toLex scan.claim.target.identity) = none
          rw [htgt]
          exact hload
        rw [hnone] at hother
        cases hother
      exact (Table.find?_put_of_ne hne).trans hother

theorem checkpoint_moves {expected : Option WorkSourceProgress} {progress : WorkSourceProgress}
    (h : store.checkpoint claim now expected progress = .ok store') :
    Moves digests store (.checkpoint claim now expected progress) store' := by
  obtain ⟨-, h⟩ := guard_eq_ok.mp h
  obtain ⟨scan, hlock, h⟩ := bind_eq_ok.mp h
  obtain ⟨blocking, -, h⟩ := bind_eq_ok.mp h
  obtain ⟨-, h⟩ := guard_eq_ok.mp h
  cases h
  obtain ⟨hholds, hload, -⟩ := lockClaim_eq_ok hlock
  exact moves_of_scans rfl (saveScan_same hload rfl) rfl (held_of hholds rfl) rfl

theorem select_moves {item : WorkSourceItem}
    {matched : List Nat} (h : store.select claim now item matched = .ok store') :
    Moves digests store (.select claim now item matched) store' := by
  obtain ⟨scan, hlock, h⟩ := bind_eq_ok.mp h
  obtain ⟨members, -, h⟩ := bind_eq_ok.mp h
  obtain ⟨selected, hsel, h⟩ := bind_eq_ok.mp h
  cases h
  obtain ⟨hholds, hload, -⟩ := lockClaim_eq_ok hlock
  exact moves_of_scans rfl (saveScan_same hload (recordSourceSelection_eq_ok hsel)) rfl
    (held_of hholds rfl) rfl

theorem finish_moves {schedule : WorkSourceSchedule}
    (h : store.finish claim now schedule = .ok store') :
    Moves digests store (.finish claim now schedule) store' := by
  obtain ⟨scan, hlock, h⟩ := bind_eq_ok.mp h
  cases h
  obtain ⟨hholds, hload, -⟩ := lockClaim_eq_ok hlock
  have hident := loadScan_identity hload
  have hgrows : store.scans.Grows WorkSourceScan.Follows (store.saveScan
      { scan with
        schedule := some schedule, claim := { scan.claim with deadline := now } }).scans :=
    saveScan_grows hload hident (Nat.le_refl _)
  exact moves_of_scans rfl hgrows rfl (held_of hholds rfl) rfl

theorem expirePage_moves {target : WorkSourceScanTarget} :
    Moves digests store (.expirePage target now) (store.expirePage target now) := by
  unfold expirePage
  split
  · exact moves_of_scans rfl scans_refl rfl (fun _ _ => nofun) rfl
  · rename_i scan hload
    split
    · exact moves_of_scans rfl (saveScan_same hload rfl) rfl (fun _ _ => nofun) rfl
    · exact moves_of_scans rfl scans_refl rfl (fun _ _ => nofun) rfl

theorem defer_moves {request : DeferSourcePreparation} (h : store.defer request = .ok store') :
    Moves digests store (.defer request) store' := by
  obtain ⟨⟨scan, preparation⟩, howner, h⟩ := bind_eq_ok.mp h
  obtain ⟨⟨saved, wait⟩, hwait, h⟩ := bind_eq_ok.mp h
  cases h
  obtain ⟨hholds, hload, -, hfind, -⟩ := owner_eq_ok howner
  obtain ⟨hkeeps, hadmis⟩ := recordWait_eq_ok hwait
  exact moves_of_save rfl (saveScan_same hload rfl) rfl (held_of hholds rfl) rfl
    (id_of_find? hfind) hkeeps hadmis

theorem freezePolicy_moves {request : FreezeSourcePreparationPolicy}
    (h : store.freezePolicy digests request = .ok store') :
    Moves digests store (.freezePolicy request) store' := by
  obtain ⟨⟨scan, preparation⟩, howner, h⟩ := bind_eq_ok.mp h
  obtain ⟨saved, hretain, h⟩ := bind_eq_ok.mp h
  cases h
  obtain ⟨hholds, -, -, hfind, -⟩ := owner_eq_ok howner
  obtain ⟨hkeeps, hadmis⟩ := retain_eq_ok hretain
  exact moves_of_save rfl scans_refl rfl (held_of hholds rfl) rfl
    (id_of_find? hfind) hkeeps hadmis

theorem publishIntent_moves {request : PublishSourcePreparationIntent}
    (h : store.publishIntent digests request = .ok store') :
    Moves digests store (.publishIntent request) store' := by
  obtain ⟨⟨scan, preparation⟩, howner, h⟩ := bind_eq_ok.mp h
  obtain ⟨saved, hintent, h⟩ := bind_eq_ok.mp h
  cases h
  obtain ⟨hholds, -, -, hfind, -⟩ := owner_eq_ok howner
  obtain ⟨hkeeps, hadmis⟩ := withIntent_eq_ok hintent
  exact moves_of_save rfl scans_refl rfl (held_of hholds rfl) rfl
    (id_of_find? hfind) hkeeps hadmis

theorem registerObjects_eq_ok {objects : List SourceArtifactObject}
    (h : store.registerObjects objects = .ok store') :
    store' = { store with objects := store'.objects } := by
  obtain ⟨-, h⟩ := guard_eq_ok.mp h
  cases h
  rfl

theorem reserveArtifacts_moves {request : ReserveSourceArtifacts}
    (h : store.reserveArtifacts request = .ok store') :
    Moves digests store (.reserveArtifacts request) store' := by
  obtain ⟨-, h⟩ := guard_eq_ok.mp h
  obtain ⟨⟨scan, preparation⟩, howner, h⟩ := bind_eq_ok.mp h
  dsimp only at h
  obtain ⟨manifest, -, h⟩ := bind_eq_ok.mp h
  obtain ⟨hholds, -⟩ := owner_eq_ok howner
  split at h
  · rw [registerObjects_eq_ok h]
    exact moves_of_scans rfl scans_refl rfl (held_of hholds rfl) rfl
  · cases h
    exact moves_of_scans rfl scans_refl rfl (held_of hholds rfl) rfl

theorem publishArtifacts_moves {request : PublishSourceArtifacts}
    (h : store.publishArtifacts request = .ok store') :
    Moves digests store (.publishArtifacts request) store' := by
  obtain ⟨⟨scan, preparation⟩, howner, h⟩ := bind_eq_ok.mp h
  obtain ⟨manifest, -, h⟩ := bind_eq_ok.mp h
  obtain ⟨published, -, h⟩ := bind_eq_ok.mp h
  cases h
  obtain ⟨hholds, -⟩ := owner_eq_ok howner
  exact moves_of_scans rfl scans_refl rfl (held_of hholds rfl) rfl

theorem reject_moves {request : RejectSourcePreparation} (h : store.reject request = .ok store') :
    Moves digests store (.reject request) store' := by
  obtain ⟨⟨scan, preparation⟩, howner, h⟩ := bind_eq_ok.mp h
  obtain ⟨manifest, -, h⟩ := bind_eq_ok.mp h
  cases h
  obtain ⟨hholds, -⟩ := owner_eq_ok howner
  exact moves_of_scans rfl scans_refl rfl (held_of hholds rfl) rfl

/-- A reservation keeps an earlier row of its identity, or adds an untouched one. -/
theorem reserve_moves {request : ReserveWorkSourcePreparation} {lineage : Option Lineage}
    {initialPolicy : Option (List UInt8)} {retained : WorkSourcePreparation}
    (h : store.reserve digests request lineage initialPolicy = .ok (store', retained)) :
    Moves digests store (.reserve request lineage initialPolicy) store' := by
  obtain ⟨-, h⟩ := guard_eq_ok.mp h
  obtain ⟨scan, hlock, h⟩ := bind_eq_ok.mp h
  obtain ⟨input, -, h⟩ := bind_eq_ok.mp h
  obtain ⟨fresh, hfreeze, h⟩ := bind_eq_ok.mp h
  dsimp only at h
  obtain ⟨loaded, -, h⟩ := bind_eq_ok.mp h
  cases h
  obtain ⟨hholds, -⟩ := lockClaim_eq_ok hlock
  split
  · exact moves_of_scans rfl scans_refl rfl (held_of hholds rfl) rfl
  · rename_i hnew
    -- The frozen record is of the ticket and the input it names.
    have hfresh : (Lineage.attach lineage fresh).Identified digests ∧
        (Lineage.attach lineage fresh).admission = none ∧
        (Lineage.attach lineage fresh).id = fresh.id := by
      obtain ⟨-, hfreeze⟩ := guard_eq_ok.mp hfreeze
      obtain ⟨-, hfreeze⟩ := guard_eq_ok.mp hfreeze
      obtain ⟨expires, -, hfreeze⟩ := bind_eq_ok.mp hfreeze
      cases hfreeze
      cases lineage <;> exact ⟨⟨rfl, rfl⟩, rfl, rfl⟩
    obtain ⟨hidentified, hadmis, hid⟩ := hfresh
    have habsent : store.preparations.find? fresh.id = none := by
      rw [Table.find?_eq_none_iff]
      intro row hrow hkey
      exact hnew ((Table.contains_iff _ _).mpr ⟨row, hrow, hkey⟩)
    constructor
    · exact .inl rfl
    · exact .refl WorkSourceScan.Follows.refl _
    · exact held_of hholds rfl
    · intro id a ha
      refine ⟨a, ?_, .inl (.refl a)⟩
      rw [find?_save, hid, if_neg]
      · exact ha
      · rintro rfl
        rw [habsent] at ha
        cases ha
    · intro id b hb hnone
      rw [find?_save] at hb
      split at hb
      · cases hb
        exact ⟨hidentified, hadmis⟩
      · rw [hnone] at hb
        cases hb
    · intro id a b ha hb
      rw [find?_save, hid, if_neg] at hb
      · cases ha.symm.trans hb
        exact .inl rfl
      · rintro rfl
        rw [habsent] at ha
        cases ha
    · exact .inl rfl

theorem completeCleanup_moves {expected : SourcePreparationCleanup} {recheckAt : Timestamp}
    (h : store.completeCleanup expected now recheckAt = .ok store') :
    Moves digests store (.completeCleanup expected now recheckAt) store' := by
  have hidle : Moves digests store (.completeCleanup expected now recheckAt) store :=
    moves_of_scans rfl scans_refl rfl (fun _ _ => nofun) rfl
  obtain ⟨-, h⟩ := check_eq_ok.mp h
  obtain ⟨preparation, hload, h⟩ := bind_eq_ok.mp h
  dsimp only at h
  obtain ⟨isRequired, -, h⟩ := bind_eq_ok.mp h
  obtain ⟨hfind, -⟩ := loadPreparation_eq_ok hload
  split at h
  · cases h
    exact hidle
  · cases h
    -- The manifest is marked first; it is no preparation.
    have hsaved : ∀ manifest : Option SourceMaterialization,
        ∃ materializations, (manifest.elim store fun manifest =>
          store.saveMaterialization (cleanedManifest manifest now recheckAt)) =
          { store with materializations } := by
      intro manifest
      cases manifest with
      | none => exact ⟨store.materializations, rfl⟩
      | some manifest => exact ⟨_, rfl⟩
    obtain ⟨materializations, hmani⟩ := hsaved
      (store.loadMaterialization expected.projectId expected.preparationId)
    rw [hmani]
    split
    · exact ⟨hidle.tables, hidle.scans, hidle.held, hidle.kept, hidle.fresh, hidle.admitted,
        hidle.works⟩
    · have hcleared := id_of_find? hfind
      have hlook : ∀ id, (({ store with materializations } : SourceStore).savePreparation
          preparation.cleared).preparations.find? id =
          if id = preparation.id then some preparation.cleared
          else store.preparations.find? id := fun id => find?_save preparation.cleared id
      refine ⟨.inl rfl, hidle.scans, hidle.held, ?_, ?_, ?_, .inl rfl⟩
      · intro id a ha
        rw [hlook]
        split
        · rename_i hid
          rw [hid] at ha
          cases ha.symm.trans hcleared
          exact ⟨_, rfl, .inr ⟨⟨expected, now, recheckAt, rfl⟩, rfl⟩⟩
        · exact ⟨a, ha, .inl (.refl a)⟩
      · intro id b hb hnone
        rw [hlook] at hb
        split at hb
        · rename_i hid
          rw [hid, hcleared] at hnone
          cases hnone
        · rw [hnone] at hb
          cases hb
      · intro id a b ha hb
        rw [hlook] at hb
        split at hb
        · rename_i hid
          rw [hid] at ha
          cases ha.symm.trans hcleared
          cases hb
          exact .inl rfl
        · cases ha.symm.trans hb
          exact .inl rfl

theorem lockPreparation_eq_ok (h : store.lockPreparation digests guard request = .ok preparation) :
    store.Holds guard.claim guard.now ∧ store.preparations.find? preparation.id = some preparation ∧
      request.identity = preparation.identityIn digests request.identity.securityScope := by
  obtain ⟨⟨scan, found⟩, howner, h⟩ := bind_eq_ok.mp h
  obtain ⟨hvalid, h⟩ := check_eq_ok.mp h
  cases h
  obtain ⟨hholds, -, -, hfind, -⟩ := owner_eq_ok howner
  obtain ⟨intent, -, hvalid⟩ := bind_eq_ok.mp hvalid
  obtain ⟨hmatch, -⟩ := guard_eq_ok.mp hvalid
  refine ⟨hholds, id_of_find? hfind, ?_⟩
  by_contra hne
  exact hmatch (.inr (.inr (.inl hne)))

/-- An admission rewrites its preparation to name a Work of its identity. -/
theorem moves_of_admission
    {checks : AdmissionChecks} {saved : WorkSourcePreparation} {work : AdmittedWork}
    (hholds : store.Holds guard.claim guard.now)
    (hfind : store.preparations.find? preparation.id = some preparation)
    (hident : request.identity = preparation.identityIn digests request.identity.securityScope)
    (hkeeps : preparation.Keeps saved) (hadmis : saved.admission = some work.receipt)
    (hwork : work.identity = request.identity) (hmem : work ∈ store'.works)
    (hworks : store'.works = store.works ∨ store'.works = store.works ++ [work] ∧
      ∀ earlier ∈ store.works, earlier.identity ≠ work.identity)
    (hstore : store' = { store.savePreparation saved with works := store'.works }) :
    Moves digests store (.admitPrepared guard request checks) store' := by
  have hlook : ∀ id, store'.preparations.find? id =
      if id = preparation.id then some saved else store.preparations.find? id := by
    intro id
    rw [hstore, ← hkeeps.id]
    exact find?_save saved id
  refine ⟨.inl (by rw [hstore]; rfl), ?_, held_of hholds rfl, ?_, ?_, ?_, ?_⟩
  · rw [hstore]
    exact .refl WorkSourceScan.Follows.refl _
  · intro id a ha
    rw [hlook]
    split
    · rename_i hid
      rw [hid] at ha
      cases ha.symm.trans hfind
      exact ⟨saved, rfl, .inl hkeeps⟩
    · exact ⟨a, ha, .inl (.refl a)⟩
  · intro id b hb hnone
    rw [hlook] at hb
    split at hb
    · rename_i hid
      rw [hid, hfind] at hnone
      cases hnone
    · rw [hnone] at hb
      cases hb
  · intro id a b ha hb
    rw [hlook] at hb
    split at hb
    · rename_i hid
      rw [hid] at ha
      cases ha.symm.trans hfind
      cases hb
      exact .inr ⟨guard, request, checks, rfl, hident, work, hmem, hwork, hadmis⟩
    · cases ha.symm.trans hb
      exact .inl rfl
  · rcases hworks with hsame | ⟨happend, hnew⟩
    · exact .inl hsame
    · exact .inr ⟨guard, request, checks, work, rfl, happend, hwork, hnew⟩

theorem admit_moves {checks : AdmissionChecks} {receipt : WorkSourceCorrelation}
    (h : store.admitPrepared digests guard request checks = .ok (store', receipt)) :
    Moves digests store (.admitPrepared guard request checks) store' := by
  obtain ⟨preparation, hlock, h⟩ := bind_eq_ok.mp h
  obtain ⟨hholds, hfind, hident⟩ := lockPreparation_eq_ok hlock
  split at h
  · rename_i work hwork
    obtain ⟨-, h⟩ := guard_eq_ok.mp h
    cases h
    have hsel := List.find?_some hwork
    exact moves_of_admission hholds hfind hident (keeps_correlate _ _) rfl
      (of_decide_eq_true hsel) (List.mem_of_find?_eq_some hwork) (.inl rfl) rfl
  · rename_i hnone
    obtain ⟨-, h⟩ := check_eq_ok.mp h
    obtain ⟨-, h⟩ := guard_eq_ok.mp h
    cases h
    have hkeeps : preparation.Keeps (WorkSourcePreparation.correlate
        { preparation with issueRevision := preparation.issueRevision <|> checks.predecessor }
        request.receipt) :=
      ⟨rfl, rfl, rfl, rfl, rfl, rfl, rfl, rfl, fun _ h => h, fun _ => rfl, fun _ h => h⟩
    have hmem : (⟨request.identity, request.intent, request.receipt⟩ : AdmittedWork) ∈
        store.works ++ [⟨request.identity, request.intent, request.receipt⟩] :=
      List.mem_append_right _ (List.mem_singleton_self _)
    refine moves_of_admission hholds hfind hident hkeeps rfl rfl hmem (.inr ⟨rfl, ?_⟩) rfl
    intro earlier hearl heq
    exact List.find?_eq_none.mp hnone earlier hearl (decide_eq_true heq)

/-! ## Any call -/

theorem apply_moves (h : store.apply digests event = .ok store') :
    Moves digests store event store' := by
  cases event with
  | publish request checks => exact publish_moves h
  | claim request =>
    obtain ⟨_, hclaim⟩ := map_fst_eq_ok h
    exact claimScan_moves hclaim
  | checkpoint held now expected progress => exact checkpoint_moves h
  | select held now item matched => exact select_moves h
  | finish held now schedule => exact finish_moves h
  | expirePage target now =>
    cases h
    exact expirePage_moves
  | reserve request lineage initialPolicy =>
    obtain ⟨_, hreserve⟩ := map_fst_eq_ok h
    exact reserve_moves hreserve
  | defer request => exact defer_moves h
  | freezePolicy request => exact freezePolicy_moves h
  | publishIntent request => exact publishIntent_moves h
  | reserveArtifacts request => exact reserveArtifacts_moves h
  | publishArtifacts request => exact publishArtifacts_moves h
  | reject request => exact reject_moves h
  | completeCleanup expected now recheckAt => exact completeCleanup_moves h
  | admitPrepared guard request checks =>
    obtain ⟨_, hadmit⟩ := map_fst_eq_ok h
    exact admit_moves hadmit

/-- A call commits, or leaves the store as it was. -/
theorem step_eq (digests : SourceDigests) (store : SourceStore) (event : SourceEvent) :
    store.apply digests event = .ok (store.step digests event) ∨
      store.step digests event = store := by
  unfold step
  cases store.apply digests event with
  | error error => exact .inr rfl
  | ok next => exact .inl rfl

end SourceStore

end OctaCity.Source
