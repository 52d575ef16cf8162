/-
  OctaCity.Retention.HeldResults

  Held or referenced results are kept.  A component of a Build is hidden by the
  `prepare` of a pass alone, at a time when nothing keeps the Build; a hold that
  was accepted keeps the whole Build intact until it ends; work moves forward
  only; and nothing is published or archived under a hidden component.
-/
import OctaCity.Retention.ResultRun

namespace OctaCity.Retention

open Domain Lib Store Table
open Factory (FactoryDigest)

/-! ## What nothing keeps -/

variable {request : PrepareRetentionWork} {work work' : RetentionWork}
  {preparation : RetentionPreparation}

namespace ResultDb

variable {ids : DerivedIds} {s s' : ResultDb} {build : BuildId}
  {component : BuildResultComponent} {observedAt : Timestamp}

/-- No hold, no Run and no reference keeps a Build at an instant. -/
structure IsFree (s : ResultDb) (build : BuildId) (observedAt : Timestamp) : Prop where
  hold : ∀ hold, (s.holds build).latest = some hold → hold.state observedAt ≠ .active
  run : ∀ run ∈ s.factory.runs.rows, s.isLinked run.id build = true →
    run.visible = false ∧ ∀ work, s.factory.work.find? run.id = some work → work.phase ≠ .hidden
  reference : ∀ run artifact role output,
    .artifactReference run artifact role ∈ s.factory.rows →
    s.factory.releasedAt (.artifactReference run artifact role) = none →
    s.outputs.find? artifact = some output → output.buildId ≠ build

theorem isFree_of_isRetained (h : s.isRetained build observedAt = false) :
    s.IsFree build observedAt := by
  unfold isRetained at h
  simp only [decide_eq_false_iff_not, not_or, Bool.not_eq_true] at h
  obtain ⟨hhold, hrun, hreference⟩ := h
  refine ⟨?_, ?_, ?_⟩
  · intro hold hlatest hact
    rw [← Bool.not_eq_true, HoldHistory.isActive_iff] at hhold
    exact hhold ⟨hold, hlatest, hact⟩
  · intro run hmem hlink
    have hnone := List.any_eq_false.mp hrun run hmem
    simp only [hlink, true_and, decide_eq_true_eq, not_or, Bool.not_eq_true] at hnone
    refine ⟨hnone.1, fun work hwork => ?_⟩
    have hphase := hnone.2
    rw [hwork, Option.any_some] at hphase
    exact of_decide_eq_false hphase
  · intro run artifact role output hmem hrelsd hfind hbuild
    have hnone := List.any_eq_false.mp hreference _ hmem
    simp [hfind, hrelsd, hbuild] at hnone

/-! ## Who hides -/

/-- Preparing a pass hides at most its own component, and only if nothing keeps the Build. -/
theorem Prepared.hides (hp : Prepared ids s s' request work work' preparation)
    (hvis : s.isVisible build component = true) (hhid : s'.isVisible build component = false) :
    work.buildId = build ∧ work.component = component ∧
      s.isRetained build request.observedAt = false := by
  obtain ⟨hfind, -, -⟩ := lockWork_eq_ok.mp hp.locked
  obtain ⟨-, hfree, t, hhide, hlast⟩ | ⟨-, -, hlast⟩ := hp.hidden
  · have hfound : ({ s with holds := s'.holds } : ResultDb).work.find? work.id = some work := by
      rw [← key_of_find? hfind] at hfind
      exact hfind
    have hblds : s'.builds =
        (s.hideBuildComponent work.buildId work.component request.observedAt).builds := by
      rw [hlast, (hideComponent_eq_ok hfound hhide).2.1]
      rfl
    rw [isVisible_congr hblds, isVisible_hideBuildComponent] at hhid
    split at hhid
    · rename_i hsame
      obtain ⟨rfl, rfl⟩ := hsame
      exact ⟨rfl, rfl, hfree⟩
    · rw [hvis] at hhid
      cases hhid
  · rw [hlast] at hhid
    have hsame : s.isVisible build component = false := hhid
    rw [hvis] at hsame
    cases hsame

end ResultDb

open ResultDb
variable {event : ResultEvent} {db : ResultDb}

namespace RetentionSystem

variable {ids : DerivedIds} {policy : DurableRetryPolicy} {σ σ' : RetentionSystem}
  {build : BuildId} {component : BuildResultComponent}

theorem Commits.isVisible (h : σ.Commits ids event db)
    (hvis : σ.db.isVisible build component = true) : db.isVisible build component = true := by
  cases h with
  | placeHold h =>
    obtain ⟨-, -, -, -, hframe, -⟩ := placeHold_eq_ok h
    rw [hframe]
    exact hvis
  | releaseHold h =>
    rw [(releaseHold_eq_ok h).1]
    exact hvis
  | beginUpload h =>
    obtain ⟨-, hframe, -⟩ := beginUpload_eq_ok h
    rw [hframe]
    exact hvis
  | verifyUpload h =>
    obtain ⟨-, -, -, rfl | ⟨hframe, -⟩⟩ := changeVerification_eq_ok h
    · exact hvis
    · rw [hframe]
      exact hvis
  | appendLogs h =>
    obtain ⟨-, rfl⟩ | ⟨-, hfold⟩ := persistLogChunks_eq_ok h
    · exact hvis
    · rw [(foldlM_insertLogChunk_eq_ok hfold).1]
      exact hvis
  | insertBuild h =>
    rw [isVisible_insertBuild h (contains_of_isVisible hvis)]
    exact hvis
  | factory h =>
    rw [h]
    exact hvis

/-- A step prepares a pass, commits, or leaves the Builds and the holds as they are. -/
theorem Moves.frame (h : σ.Moves ids policy event σ') :
    (∃ claim limit calledAt preparation, ⟨claim, .claimed⟩ ∈ σ.passes ∧
      event = .call ⟨claim, .claimed⟩ limit calledAt ∧
      σ.db.prepare ids ⟨claim.workId, claim.owner, calledAt, limit⟩ = .ok (σ'.db, preparation)) ∨
    σ.Commits ids event σ'.db ∨ σ'.db.builds = σ.db.builds ∧ σ'.db.holds = σ.db.holds := by
  cases h with
  | prepared hpass hprep => exact .inl ⟨_, _, _, _, hpass, rfl, hprep⟩
  | committed hcmt => exact .inr (.inl hcmt)
  | idle | claimed | dropped => exact .inr (.inr ⟨rfl, rfl⟩)
  | searched hpass hsrch =>
    refine .inr (.inr ?_)
    obtain ⟨work, -, -, ⟨-, searchWork, position, -, rfl⟩ | ⟨-, rfl⟩⟩ :=
      completeSearch_eq_ok hsrch
    · exact ⟨rfl, rfl⟩
    · exact ⟨rfl, rfl⟩
  | deleted hpass hobj =>
    refine .inr (.inr ?_)
    obtain ⟨work, -, ⟨chunk, -, -, hlog⟩ | ⟨artifact, -, houtput⟩⟩ :=
      completeObject_eq_ok hobj
    · obtain ⟨row, -, -, ⟨-, -, hframe, -⟩ | ⟨-, rfl⟩⟩ := completeLog_eq_ok hlog
      · exact ⟨by rw [hframe], by rw [hframe]⟩
      · exact ⟨rfl, rfl⟩
    · obtain ⟨row, row', -, hframe, -⟩ := completeRetention_eq_ok houtput
      exact ⟨by rw [hframe], by rw [hframe]⟩
  | finished hpass hfin =>
    obtain ⟨work, remaining, -, -, hframe, -⟩ := finishPass_eq_ok hfin
    exact .inr (.inr ⟨by rw [hframe], by rw [hframe]⟩)
  | failed hpass hraise hfail =>
    refine .inr (.inr ?_)
    obtain ⟨work, -, ⟨-, hframe, -⟩ | ⟨-, rfl⟩⟩ := fail_eq_ok hfail
    · exact ⟨by rw [hframe], by rw [hframe]⟩
    · exact ⟨rfl, rfl⟩

/-- A component is hidden by the `prepare` of a pass over it. -/
theorem Moves.hides (h : σ.Moves ids policy event σ') (hs : σ.Sound)
    (hvis : σ.db.isVisible build component = true)
    (hhid : σ'.db.isVisible build component = false) :
    ∃ claim limit calledAt, event = .call ⟨claim, .claimed⟩ limit calledAt ∧
      claim.buildId = build ∧ claim.component = component ∧
      σ.db.isRetained build calledAt = false := by
  obtain ⟨claim, limit, calledAt, preparation, hpass, hevent, hprep⟩ | hcmt | ⟨hblds, -⟩ :=
    h.frame
  · obtain ⟨work, work', hprepd⟩ := prepare_eq_ok hprep
    obtain ⟨hbuild, hcpt, hfree⟩ := hprepd.hides hvis hhid
    obtain ⟨claimed, hclaim, hclaimBuild, hclaimComponent⟩ := (hs.passes _ hpass).work
    have hfind := (lockWork_eq_ok.mp hprepd.locked).1
    cases hclaim.symm.trans hfind
    exact ⟨claim, limit, calledAt, hevent, hclaimBuild.symm.trans hbuild,
      hclaimComponent.symm.trans hcpt, hfree⟩
  · have hkept := hcmt.isVisible hvis
    rw [hhid] at hkept
    cases hkept
  · rw [isVisible_congr hblds, hvis] at hhid
    cases hhid

end RetentionSystem

/-! ## Publications and commits -/

namespace ResultDb

variable {ids : DerivedIds} {s s' : ResultDb} {build : BuildId}
  {component : BuildResultComponent} {observedAt : Timestamp}

/-- Outputs are published, and chunks added, under a visible component only. -/
structure Guarded (s s' : ResultDb) : Prop where
  published : ∀ row' ∈ s'.outputs.rows, row'.state = .published →
    (∃ row, s.outputs.find? row'.id = some row ∧ row.state = .published) ∨
      s.isVisible row'.buildId row'.component = true
  committed : ∀ row' ∈ s'.chunks.rows,
    s.chunks.contains row'.chunkId = true ∨ s.isVisible row'.buildId .logs = true

theorem publishedOld {row : OutputRow} (hrow : row ∈ s.outputs.rows) (hstate : row.state = .published) :
    (∃ other, s.outputs.find? row.id = some other ∧ other.state = .published) ∨
      s.isVisible row.buildId row.component = true :=
  .inl ⟨row, s.outputs.find?_of_mem hrow, hstate⟩

theorem committedOld {row : ResultLogRow} (hrow : row ∈ s.chunks.rows) :
    s.chunks.contains row.chunkId = true ∨ s.isVisible row.buildId .logs = true :=
  .inl ((contains_iff _ _).mpr ⟨row, hrow, rfl⟩)

theorem guarded_of_eq (houts : s'.outputs = s.outputs) (hchunks : s'.chunks = s.chunks) :
    s.Guarded s' := by
  refine ⟨?_, ?_⟩
  · rw [houts]
    exact fun row hrow hstate => publishedOld hrow hstate
  · rw [hchunks]
    exact fun row hrow => committedOld hrow

variable {row' : OutputRow}

/-- One output set to a row that is not published under a hidden component. -/
theorem guarded_of_setOutput (hframe : s' = { s with outputs := s'.outputs })
    (hset : s.outputs.Sets s'.outputs row')
    (hstate : row'.state ≠ .published ∨ s.isVisible row'.buildId row'.component = true) :
    s.Guarded s' := by
  refine ⟨hset.forall_mem (fun hpubd => ?_) fun row hrow hpubd => publishedOld hrow hpubd, ?_⟩
  · rcases hstate with hother | hvis
    · exact absurd hpubd hother
    · exact .inr hvis
  · rw [hframe]
    exact fun row hrow => committedOld hrow

theorem published_of_keeps {table : Table OutputRow.id}
    (hevos : s.outputs.Evolves OutputRow.Keeps (fun _ => False) table)
    (hrow' : row' ∈ table.rows) (hstate : row'.state = .published) :
    ∃ row, s.outputs.find? row'.id = some row ∧ row.state = .published := by
  obtain ⟨row, hrow, hkeeps⟩ | ⟨-, hnone⟩ := hevos.origin _ row' (mem_iff_find?.mp hrow')
  · exact ⟨row, hrow, hkeeps.published hstate⟩
  · exact hnone.elim

theorem Prepared.guarded
    (hp : Prepared ids s s' request work work' preparation) : s.Guarded s' := by
  refine ⟨fun row' hrow' hstate => .inl (published_of_keeps hp.outputs hrow' hstate), ?_⟩
  obtain ⟨hfind, -, -⟩ := lockWork_eq_ok.mp hp.locked
  obtain ⟨-, -, t, hhide, hlast⟩ | ⟨-, -, hlast⟩ := hp.hidden
  · have hfound : ({ s with holds := s'.holds } : ResultDb).work.find? work.id = some work := by
      rw [← key_of_find? hfind] at hfind
      exact hfind
    have hchunks : s'.chunks = if work.component = .logs then
        (s.hideChunks work.buildId request.observedAt).chunks else s.chunks := by
      rw [hlast, (hideComponent_eq_ok hfound hhide).2.2.1]
      rfl
    intro row' hrow'
    rw [hchunks] at hrow'
    split at hrow'
    · -- Hiding the chunks adds none.
      unfold hideChunks at hrow'
      dsimp only at hrow'
      obtain ⟨row, hrow, rfl⟩ := mem_updateWhere.mp hrow'
      refine .inl ((contains_iff _ _).mpr ⟨row, hrow, ?_⟩)
      split <;> rfl
    · exact committedOld hrow'
  · rw [hlast]
    exact fun row hrow => committedOld hrow

theorem guarded_completeLog {chunk : LogChunkId}
    (h : s.completeLog build chunk observedAt = .ok s') : s.Guarded s' := by
  obtain ⟨row, hfind, -, ⟨-, -, hframe, hset⟩ | ⟨-, rfl⟩⟩ := completeLog_eq_ok h
  · refine ⟨?_, hset.forall_mem (.inl ?_) fun other hother => committedOld hother⟩
    · rw [hframe]
      exact fun row hrow hstate => publishedOld hrow hstate
    · exact (contains_iff _ _).mpr ⟨row, mem_of_find? hfind, rfl⟩
  · exact guarded_of_eq rfl rfl

theorem guarded_completeObject {id : RetentionWorkId} {owner : WorkerOwner}
    {object : RetentionObjectIdentity} (h : s.completeObject id owner object observedAt = .ok s') :
    s.Guarded s' := by
  obtain ⟨work, -, ⟨chunk, -, -, hlog⟩ | ⟨artifact, -, houtput⟩⟩ := completeObject_eq_ok h
  · exact guarded_completeLog hlog
  · obtain ⟨row, row', -, hframe, hset, -, -, -, hstate⟩ := completeRetention_eq_ok houtput
    refine guarded_of_setOutput hframe hset (.inl ?_)
    rw [hstate]
    decide

theorem guarded_persistLogChunks {access : Except ResultError Unit} {origin : LogOrigin}
    {chunks : List LogChunkManifest}
    (h : s.persistLogChunks access origin observedAt chunks = .ok s') : s.Guarded s' := by
  obtain ⟨-, rfl⟩ | ⟨hvis, hfold⟩ := persistLogChunks_eq_ok h
  · exact guarded_of_eq rfl rfl
  · obtain ⟨hframe, hevos⟩ := foldlM_insertLogChunk_eq_ok hfold
    refine ⟨?_, fun row' hrow' => ?_⟩
    · rw [hframe]
      exact fun row hrow hstate => publishedOld hrow hstate
    · obtain ⟨row, hrow, rfl⟩ | ⟨-, hbuild, -⟩ :=
        hevos.origin _ row' (mem_iff_find?.mp hrow')
      · exact committedOld (mem_of_find? hrow)
      · exact .inr (hbuild ▸ hvis)

end ResultDb

namespace RetentionSystem

variable {ids : DerivedIds} {policy : DurableRetryPolicy} {σ σ' : RetentionSystem}
  {build : BuildId} {component : BuildResultComponent}

theorem Commits.guarded (h : σ.Commits ids event db) : σ.db.Guarded db := by
  cases h with
  | placeHold h =>
    obtain ⟨-, -, -, -, hframe, -⟩ := placeHold_eq_ok h
    rw [hframe]
    exact guarded_of_eq rfl rfl
  | releaseHold h =>
    rw [(releaseHold_eq_ok h).1]
    exact guarded_of_eq rfl rfl
  | beginUpload h =>
    obtain ⟨row, hframe, hins, hstate, -⟩ := beginUpload_eq_ok h
    refine guarded_of_setOutput hframe (sets_insert? hins) (.inl ?_)
    rw [hstate]
    decide
  | verifyUpload h =>
    obtain ⟨row, hrow, hvis, rfl | ⟨hframe, row', hset, -, hbuild, hreport, -⟩⟩ :=
      changeVerification_eq_ok h
    · exact guarded_of_eq rfl rfl
    · have hfol : row.Follows row' := ⟨hbuild, hreport⟩
      refine guarded_of_setOutput hframe hset (.inr ?_)
      rw [hbuild, hfol.component]
      exact hvis
  | appendLogs h => exact guarded_persistLogChunks h
  | insertBuild h =>
    rw [(insertBuild_eq_ok h).1]
    exact guarded_of_eq rfl rfl
  | factory h =>
    rw [h]
    exact guarded_of_eq rfl rfl

theorem Moves.guarded (h : σ.Moves ids policy event σ') : σ.db.Guarded σ'.db := by
  cases h with
  | idle => exact guarded_of_eq rfl rfl
  | claimed => exact guarded_of_eq rfl rfl
  | dropped => exact guarded_of_eq rfl rfl
  | prepared hpass hprep =>
    obtain ⟨work, work', hprepd⟩ := prepare_eq_ok hprep
    exact hprepd.guarded
  | searched hpass hsrch =>
    obtain ⟨work, -, -, ⟨-, searchWork, position, -, rfl⟩ | ⟨-, rfl⟩⟩ :=
      completeSearch_eq_ok hsrch
    · exact guarded_of_eq rfl rfl
    · exact guarded_of_eq rfl rfl
  | deleted hpass hobj => exact guarded_completeObject hobj
  | finished hpass hfin =>
    obtain ⟨work, remaining, -, -, hframe, -⟩ := finishPass_eq_ok hfin
    rw [hframe]
    exact guarded_of_eq rfl rfl
  | failed hpass hraise hfail =>
    obtain ⟨work, -, ⟨-, hframe, -⟩ | ⟨-, rfl⟩⟩ := fail_eq_ok hfail
    · show σ.db.Guarded _
      rw [hframe]
      exact guarded_of_eq rfl rfl
    · exact guarded_of_eq rfl rfl
  | committed hcmt => exact hcmt.guarded

end RetentionSystem

/-! ## Holds -/

/-- The observed time that a step sends to the store. -/
def ResultEvent.observedAt : ResultEvent → Option Timestamp
  | .claim request _ => some request.observedAt
  | .call _ _ calledAt => some calledAt
  | .fail _ _ failedAt => some failedAt
  | .placeHold request => some request.placedAt
  | .releaseHold request => some request.releasedAt
  | .beginUpload request => some request.reservedAt
  | .verifyUpload request _ => some request.observedAt
  | .appendLogs _ _ acceptedAt _ => some acceptedAt
  | .advanceFactory request => some request.observedAt
  | .insertBuild _ | .linkExecution .. | .referenceArtifact .. | .factory _ | .startTextCleanup _ => none

namespace RetentionSystem

variable {ids : DerivedIds} {policy : DurableRetryPolicy} {σ σ' : RetentionSystem}
  {build : BuildId} {component : BuildResultComponent}

/-- A step ends a hold: it releases it, or observes a time at which it has expired. -/
def EndsHold (σ : RetentionSystem) (hold : PlaceBuildResultHold) (event : ResultEvent) : Prop :=
  (∃ request db, event = .releaseHold request ∧ request.buildId = hold.buildId ∧
      σ.db.releaseHold request = .ok db) ∨
    ∃ expiry ∈ hold.expiresAt, ∃ observedAt ∈ event.observedAt, expiry ≤ observedAt

/-- The whole Build is visible, nothing of it is deleted and no pass is about to delete any. -/
structure Intact (σ : RetentionSystem) (build : BuildId) : Prop where
  visible : ∀ component, σ.db.isVisible build component = true
  chunks : ∀ row ∈ σ.db.chunks.rows, row.buildId = build →
    row.visible = true ∧ row.deletedAt = none
  outputs : ∀ row ∈ σ.db.outputs.rows, row.buildId = build → row.state ≠ .deleted
  passes : ∀ pass ∈ σ.passes, pass.claim.buildId = build →
    ∀ searchDeletion objects, pass.stage = .prepared searchDeletion objects →
      searchDeletion = none ∧ objects = []

theorem Sound.intact (hs : σ.Sound) (hvis : ∀ component, σ.db.isVisible build component = true) :
    σ.Intact build := by
  have hnever : ∀ component, σ.db.isVisible build component = false → False := by
    intro component hhid
    rw [hvis] at hhid
    cases hhid
  refine ⟨hvis, ?_, ?_, ?_⟩
  · rintro row hrow rfl
    have hsound := hs.db.chunks row hrow
    have hrowVisible := hsound.visible.trans (hvis .logs)
    exact ⟨hrowVisible, hsound.kept hrowVisible⟩
  · rintro row hrow rfl hdel
    exact hnever _ ((hs.db.outputs row hrow).kept hdel)
  · rintro ⟨claim, stage⟩ hpass rfl searchDeletion objects rfl
    obtain ⟨hsrch, hobjs⟩ := (hs.passes _ hpass).stage
    constructor
    · cases searchDeletion with
      | none => rfl
      | some deletion => exact (hnever _ (hsrch rfl).2).elim
    · cases objects with
      | nil => rfl
      | cons object rest =>
        have hobj := hobjs object (List.mem_cons_self ..)
        cases object with
        | log manifest =>
          obtain ⟨-, row, hrow, -, hbuild, hhid⟩ := hobj
          have hrowVisible := (hs.db.chunks row hrow).visible
          rw [hbuild, hvis, hhid] at hrowVisible
          cases hrowVisible
        | output upload =>
          obtain ⟨-, -, -, -, -, hhid⟩ := hobj
          exact (hnever _ hhid).elim

/-- The latest hold of a Build is an accepted one that has neither been released nor expired. -/
def IsHeldBy (σ : RetentionSystem) (hold : PlaceBuildResultHold) : Prop :=
  ∃ row, (σ.db.holds hold.buildId).latest = some row ∧ row.releasedAt = none ∧
    row.expiredAt = none ∧ row.expiresAt = hold.expiresAt

variable {hold : PlaceBuildResultHold}

theorem IsHeldBy.isActive (h : σ.IsHeldBy hold) (observedAt : Timestamp)
    (hbef : ∀ expiry ∈ hold.expiresAt, observedAt < expiry) :
    (σ.db.holds hold.buildId).isActive observedAt = true := by
  obtain ⟨row, hlatest, hrelsd, hexpd, hexps⟩ := h
  refine HoldHistory.isActive_iff.mpr ⟨row, hlatest, ?_⟩
  rw [HoldRow.state_eq_active, hexps]
  exact ⟨hrelsd, hexpd, hbef⟩

theorem IsHeldBy.of_eq (h : σ.IsHeldBy hold)
    (hsame : σ'.db.holds hold.buildId = σ.db.holds hold.buildId) : σ'.IsHeldBy hold := by
  obtain ⟨row, hlatest, hrow⟩ := h
  exact ⟨row, hsame ▸ hlatest, hrow⟩

theorem Commits.holds
    (h : σ.Commits ids event db) (hheld : σ.IsHeldBy hold) (hkept : ¬ σ.EndsHold hold event) :
    db.holds hold.buildId = σ.db.holds hold.buildId := by
  cases h with
  | @placeHold request _ h =>
    obtain ⟨row, -, -, hinactive, hframe, -, hother⟩ := placeHold_eq_ok h
    by_cases hbuild : request.buildId = hold.buildId
    · -- A second hold is refused while the first one is active.
      have hact := hheld.isActive request.placedAt fun expiry hexpiry => by
        by_contra hlate
        exact hkept (.inr ⟨expiry, hexpiry, request.placedAt, rfl, not_lt.mp hlate⟩)
      rw [← hbuild, hinactive] at hact
      cases hact
    · exact hother _ (Ne.symm hbuild)
  | @releaseHold request _ h =>
    by_cases hbuild : request.buildId = hold.buildId
    · exact (hkept (.inl ⟨request, db, rfl, hbuild, h⟩)).elim
    · exact (releaseHold_eq_ok h).2 _ (Ne.symm hbuild)
  | beginUpload h =>
    obtain ⟨-, hframe, -⟩ := beginUpload_eq_ok h
    rw [hframe]
  | verifyUpload h =>
    obtain ⟨-, -, -, rfl | ⟨hframe, -⟩⟩ := changeVerification_eq_ok h
    · rfl
    · rw [hframe]
  | appendLogs h =>
    obtain ⟨-, rfl⟩ | ⟨-, hfold⟩ := persistLogChunks_eq_ok h
    · rfl
    · rw [(foldlM_insertLogChunk_eq_ok hfold).1]
  | insertBuild h => rw [(insertBuild_eq_ok h).1]
  | factory h => rw [h]

/-- A hold that no step ends stays the latest one, and an intact Build stays visible. -/
theorem Moves.held (h : σ.Moves ids policy event σ') (hheld : σ.IsHeldBy hold)
    (hkept : ¬ σ.EndsHold hold event) : σ'.db.holds hold.buildId = σ.db.holds hold.buildId := by
  obtain ⟨claim, limit, calledAt, preparation, -, hevent, hprep⟩ | hcmt | ⟨-, hholds⟩ :=
    h.frame
  · obtain ⟨work, work', hprepd⟩ := prepare_eq_ok hprep
    by_cases hbuild : work.buildId = hold.buildId
    · have hact := hheld.isActive calledAt fun expiry hexpiry => by
        by_contra hlate
        exact hkept (.inr ⟨expiry, hexpiry, calledAt, by rw [hevent]; rfl, not_lt.mp hlate⟩)
      rw [← hbuild] at hact ⊢
      exact hprepd.activeHold hact
    · exact hprepd.otherHolds _ (Ne.symm hbuild)
  · exact hcmt.holds hheld hkept
  · rw [hholds]

/-- A step that does not end the hold hides no component of the held Build. -/
theorem Moves.visible_of_held (h : σ.Moves ids policy event σ') (hs : σ.Sound)
    (hheld : σ.IsHeldBy hold) (hkept : ¬ σ.EndsHold hold event)
    (hvis : σ.db.isVisible hold.buildId component = true) :
    σ'.db.isVisible hold.buildId component = true := by
  by_contra hnot
  obtain ⟨claim, limit, calledAt, rfl, -, -, hfree⟩ :=
    h.hides hs hvis (Bool.not_eq_true _ ▸ hnot)
  have hact := hheld.isActive calledAt fun expiry hexpiry => by
    by_contra hlate
    exact hkept (.inr ⟨expiry, hexpiry, calledAt, rfl, not_lt.mp hlate⟩)
  simp [isRetained, hact] at hfree

/-- An accepted hold keeps the Build intact over any steps that do not end it. -/
theorem run_intact {events : List ResultEvent} (hs : σ.Sound)
    (hheld : σ.IsHeldBy hold) (hvis : ∀ component, σ.db.isVisible hold.buildId component = true)
    (hkept : ∀ before event after, events = before ++ event :: after →
      ¬ (run ids policy σ before).EndsHold hold event) :
    (run ids policy σ events).Intact hold.buildId := by
  induction events generalizing σ with
  | nil => exact hs.intact hvis
  | cons event rest ih =>
    have hfirst := hkept [] event rest rfl
    have hmoves : σ.Moves ids policy event (step ids policy σ event) := step_moves event
    refine ih ((hmoves.leads hs).sound hs) (hheld.of_eq (hmoves.held hheld hfirst))
      (fun component => hmoves.visible_of_held hs hheld hfirst (hvis component)) ?_
    intro before next after hsplit
    have hlater := hkept (event :: before) next after (by rw [hsplit]; rfl)
    exact hlater

theorem placeHold_held (h : σ.db.placeHold hold = .ok db) :
    (∀ component, σ.db.isVisible hold.buildId component = true) ∧
      ({ σ with db } : RetentionSystem).IsHeldBy hold ∧
      ∀ component, db.isVisible hold.buildId component = true := by
  obtain ⟨row, hfind, hcompl, -, hframe, hown, -⟩ := placeHold_eq_ok h
  have hvis : ∀ component, σ.db.isVisible hold.buildId component = true := by
    intro component
    rw [isVisible, hfind]
    have hall := of_decide_eq_true hcompl
    cases component
    · exact hall.1
    · exact hall.2.1
    · exact hall.2.2.1
    · exact hall.2.2.2
  refine ⟨hvis, ⟨⟨(σ.db.holds hold.buildId).nextVersion, hold.placedAt, hold.expiresAt, none, none⟩,
    ?_, rfl, rfl, rfl⟩, fun component => ?_⟩
  · show (db.holds hold.buildId).latest = _
    rw [hown, HoldHistory.latest_add]
  · rw [hframe]
    exact hvis component

/-! ## Every run -/

/-- In every run from an empty store: a `prepare` hides a component when nothing keeps
    its Build; an accepted hold finds the Build complete and keeps it intact until a step
    ends the hold; work moves forward only; and no output is published and no chunk
    committed under a hidden component. -/
theorem run_keeps_results (ids : DerivedIds) (policy : DurableRetryPolicy) (factory : FactoryDb)
    (executionBuild : FactoryDigest → BuildId) (expectedDigest : FactoryRow → Option String)
    (events : List ResultEvent) (event : ResultEvent) :
    let σ := run ids policy (initial factory executionBuild expectedDigest) events
    let σ' := step ids policy σ event
    (∀ build component, σ.db.isVisible build component = true →
      σ'.db.isVisible build component = false →
      ∃ claim limit calledAt, event = .call ⟨claim, .claimed⟩ limit calledAt ∧
        claim.buildId = build ∧ claim.component = component ∧ σ.db.IsFree build calledAt) ∧
    (∀ hold db, event = .placeHold hold → σ.db.placeHold hold = .ok db →
      (∀ component, σ.db.isVisible hold.buildId component = true) ∧
      ∀ later, (∀ before next after, later = before ++ next :: after →
          ¬ (run ids policy σ' before).EndsHold hold next) →
        (run ids policy σ' later).Intact hold.buildId) ∧
    (∀ id work, σ.db.work.find? id = some work →
      ∃ work', σ'.db.work.find? id = some work' ∧ work.phase.Precedes work'.phase) ∧
    (∀ row' ∈ σ'.db.outputs.rows, row'.state = .published →
      (∃ row, σ.db.outputs.find? row'.id = some row ∧ row.state = .published) ∨
        σ.db.isVisible row'.buildId row'.component = true) ∧
    ∀ row' ∈ σ'.db.chunks.rows,
      σ.db.chunks.contains row'.chunkId = true ∨ σ.db.isVisible row'.buildId .logs = true := by
  intro σ σ'
  have hs : σ.Sound := (run_leads (initial_sound factory executionBuild expectedDigest) events).1
  have hmoves : σ.Moves ids policy event σ' := step_moves event
  have hleads := hmoves.leads hs
  have hguard := hmoves.guarded
  refine ⟨?_, ?_, ?_, hguard.published, hguard.committed⟩
  · intro build component hvis hhid
    obtain ⟨claim, limit, calledAt, hevent, hbuild, hcpt, hfree⟩ :=
      hmoves.hides hs hvis hhid
    exact ⟨claim, limit, calledAt, hevent, hbuild, hcpt, isFree_of_isRetained hfree⟩
  · intro hold db hevent hplace
    have hstep : σ' = { σ with db } := by
      show step ids policy σ event = _
      rw [hevent]
      show σ.commit (σ.db.placeHold hold) = _
      rw [hplace]
      rfl
    obtain ⟨hbef, hheld, hvis⟩ := placeHold_held hplace
    refine ⟨hbef, fun later hkept => ?_⟩
    have hsound := hleads.sound hs
    rw [hstep] at hsound hkept ⊢
    exact run_intact hsound hheld hvis hkept
  · intro id work hfind
    obtain ⟨work', hfind', hfol⟩ := hleads.db.follows.work id work hfind
    exact ⟨work', hfind', hfol.phase⟩

namespace Sample

/-- One of the first 1000 milliseconds. -/
def instant (unixMillis : Nat) : Timestamp := ⟨min unixMillis 1000, supported_small unixMillis⟩

def derivedIds : DerivedIds where
  searchWork build := ⟨build.uuid⟩
  retentionWork build component :=
    ⟨4 * build.uuid + match component with
      | .metadata => 0
      | .logs => 1
      | .artifacts => 2
      | .reports => 3⟩

def oneAttempt : DurableRetryPolicy := ⟨1, 1, 1, Nat.one_pos, Nat.one_pos, le_rfl⟩

def start : RetentionSystem :=
  initial ⟨.empty, .empty, [], fun _ => none⟩ (fun _ => ⟨0⟩) fun _ => none

/-- A Build whose logs are kept until 5. -/
def insertBuild (id : Nat) : ResultEvent :=
  ResultEvent.insertBuild
    ⟨⟨id⟩, ⟨1⟩, none, fun component => instant (if component = .logs then 5 else 900)⟩

def heldBuild : PlaceBuildResultHold := ⟨⟨2⟩, none, instant 6⟩

def one : BatchLimit := ⟨1, Nat.one_pos, Nat.le_of_ble_eq_true rfl⟩

def claimLogs : ResultEvent := .claim ⟨⟨"worker"⟩, instant 10, instant 20, one, by decide⟩ []

def pass : RetentionPass :=
  ⟨⟨derivedIds.retentionWork ⟨1⟩ .logs, ⟨1⟩, ⟨1⟩, .logs, instant 5, .pending, 1, ⟨"worker"⟩,
    instant 20⟩, .claimed⟩

/-- A pass hides the logs of a Build that nothing keeps; the Build with a hold stays intact. -/
theorem run_keeps_results_held :
    let σ := run derivedIds oneAttempt start
      [insertBuild 1, insertBuild 2, .placeHold heldBuild, claimLogs]
    let σ' := step derivedIds oneAttempt σ (.call pass one (instant 11))
    σ'.db.isVisible ⟨1⟩ .logs = false ∧ σ.db.IsFree ⟨1⟩ (instant 11) ∧ σ'.Intact ⟨2⟩ := by
  intro σ σ'
  have hhid : σ'.db.isVisible ⟨1⟩ .logs = false := by decide +kernel
  obtain ⟨claim, limit, calledAt, hevent, -, -, hfree⟩ :=
    (run_keeps_results derivedIds oneAttempt _ _ _
      [insertBuild 1, insertBuild 2, .placeHold heldBuild, claimLogs]
      (.call pass one (instant 11))).1 ⟨1⟩ .logs (by decide +kernel) hhid
  cases hevent
  have hplace : ∃ db, (run derivedIds oneAttempt start
      [insertBuild 1, insertBuild 2]).db.placeHold heldBuild = .ok db := ⟨_, rfl⟩
  obtain ⟨db, hdb⟩ := hplace
  have hintact := ((run_keeps_results derivedIds oneAttempt _ _ _ [insertBuild 1, insertBuild 2]
    (.placeHold heldBuild)).2.1 heldBuild db rfl hdb).2 [claimLogs, .call pass one (instant 11)]
  refine ⟨hhid, hfree, hintact fun before next after hsplit => ?_⟩
  have hmem : next ∈ [claimLogs, .call pass one (instant 11)] := by rw [hsplit]; simp
  rintro (⟨request, db, rfl, -⟩ | ⟨expiry, hexpiry, -⟩)
  · simp [claimLogs] at hmem
  · cases hexpiry

end Sample

end RetentionSystem

end OctaCity.Retention
