/-
  OctaCity.Retention.ResultRun

  What one step of the retention system does (`Moves`), and that every run keeps
  the Build Results and the passes over them sound.
-/
import OctaCity.Retention.ResultSound

namespace OctaCity.Retention

open Domain Lib List ResultDb Store
open Factory (FactoryDigest)

/-! ## Passes -/

variable {pass : RetentionPass}

namespace ResultDb

variable {ids : DerivedIds} {s s' : ResultDb} {build : BuildId}
  {component : BuildResultComponent} {observedAt : Timestamp}

/-- Whether a claim names the Build and the component of its work row. -/
def IsClaimOf (s : ResultDb) (claim : RetentionWorkClaim) : Prop :=
  ∃ work, s.work.find? claim.workId = some work ∧ work.buildId = claim.buildId ∧
    work.component = claim.component

/-- The deletions of a stage are those of a hidden component. -/
def StageSound (s : ResultDb) (claim : RetentionWorkClaim) : PassStage → Prop
  | .claimed => True
  | .prepared searchDeletion objects =>
    (searchDeletion.isSome = true →
      claim.component = .logs ∧ s.isVisible claim.buildId .logs = false) ∧
    ∀ object ∈ objects, s.IsObjectOf claim.buildId claim.component object

structure PassSound (s : ResultDb) (pass : RetentionPass) : Prop where
  work : s.IsClaimOf pass.claim
  stage : s.StageSound pass.claim pass.stage

variable {claim : RetentionWorkClaim} {work : RetentionWork}

theorem IsClaimOf.mono (h : s.IsClaimOf claim) (hf : s.Follows s') : s'.IsClaimOf claim := by
  obtain ⟨work, hfind, hbuild, hcpt⟩ := h
  obtain ⟨work', hfind', hfol⟩ := hf.work _ work hfind
  exact ⟨work', hfind', hfol.buildId.trans hbuild, hfol.component.trans hcpt⟩

theorem IsObjectOf.mono {object : RetentionObject} (h : s.IsObjectOf build component object)
    (hs : s.Sound) (hf : s.Follows s') : s'.IsObjectOf build component object := by
  cases object with
  | log manifest =>
    obtain ⟨hlogs, row, hrow, hmani, hbuild, hhid⟩ := h
    obtain ⟨row', hrow', hfol⟩ := hf.chunks _ row (s.chunks.find?_of_mem hrow)
    exact ⟨hlogs, row', Table.mem_of_find? hrow', hfol.manifest.trans hmani,
      hfol.buildId.trans hbuild, hfol.hidden hhid⟩
  | output upload =>
    obtain ⟨row, hrow, hid, hbuild, hcpt, hhid⟩ := h
    obtain ⟨row', hrow', hfol⟩ := hf.outputs _ row (s.outputs.find?_of_mem hrow)
    refine ⟨row', Table.mem_of_find? hrow', (Table.key_of_find? hrow').trans hid,
      hfol.buildId.trans hbuild, hfol.component.trans hcpt, ?_⟩
    have hfound := (hs.outputs row hrow).found
    rw [hbuild] at hfound
    exact hidden_of_grows hf.builds hfound hhid

theorem IsClaimOf.contains (h : s.IsClaimOf claim) (hs : s.Sound) :
    s.builds.contains claim.buildId = true := by
  obtain ⟨work, hfind, hbuild, -⟩ := h
  rw [← hbuild]
  exact (hs.work work (Table.mem_of_find? hfind)).found

theorem PassSound.mono (h : s.PassSound pass) (hs : s.Sound)
    (hf : s.Follows s') : s'.PassSound pass := by
  have hfound := h.work.contains hs
  obtain ⟨claim, stage⟩ := pass
  refine ⟨h.work.mono hf, ?_⟩
  have hstage := h.stage
  cases stage with
  | claimed => exact trivial
  | prepared searchDeletion objects =>
    refine ⟨fun hsome => ?_, fun object hobj => (hstage.2 object hobj).mono hs hf⟩
    obtain ⟨hlogs, hhid⟩ := hstage.1 hsome
    exact ⟨hlogs, hidden_of_grows hf.builds hfound hhid⟩

variable {request : PrepareRetentionWork} {work' : RetentionWork}
  {preparation : RetentionPreparation}

/-- The work row of a prepared pass. -/
theorem Prepared.find (hp : Prepared ids s s' request work work' preparation) :
    s'.work.find? request.workId = some work' ∧ work'.buildId = work.buildId ∧
      work'.component = work.component := by
  obtain ⟨hfind, -, -⟩ := lockWork_eq_ok.mp hp.locked
  have hid := Table.key_of_find? hfind
  obtain ⟨-, -, t, hhide, hlast⟩ | ⟨-, rfl, hlast⟩ := hp.hidden
  · have hfound : ({ s with holds := s'.holds } : ResultDb).work.find? work.id = some work := by
      rw [hid]
      exact hfind
    obtain ⟨-, -, -, hset, hrow, -⟩ := hideComponent_eq_ok hfound hhide
    have hid' : work'.id = request.workId := by
      rw [hrow]
      exact hid
    have hwork : s'.work = t.work := by rw [hlast]
    refine ⟨?_, ?_, ?_⟩
    · rw [hwork, ← hid']
      exact hset.1
    · rw [hrow]
    · rw [hrow]
  · rw [hlast]
    exact ⟨hfind, rfl, rfl⟩

theorem searchDeletion_isSome {deletion : Option DeleteLogSearchDocuments}
    (h : searchDeletion work = .ok deletion) (hsome : deletion.isSome = true) :
    work.component = .logs ∧ work.phase = .hidden := by
  unfold searchDeletion at h
  split at h
  · assumption
  · cases h
    cases hsome

/-- A prepared pass deletes only what belongs to its hidden component. -/
theorem Prepared.passSound (hp : Prepared ids s s' request work work' preparation) (hs : s.Sound)
    (hid : request.workId = claim.workId) (hclaim : s.IsClaimOf claim) :
    s'.PassSound ⟨claim, .prepared preparation.searchDeletion preparation.objects⟩ := by
  have hleads := hp.leads hs
  obtain ⟨hfind, hbuild, hcpt⟩ := hp.find
  obtain ⟨claimed, hclaimed, hclaimBuild, hclaimComponent⟩ := hclaim
  have hlocked := (lockWork_eq_ok.mp hp.locked).1
  rw [hid, hclaimed] at hlocked
  cases hlocked
  have hobjs := hp.objects
  rw [hbuild, hcpt, hclaimBuild, hclaimComponent] at hobjs
  refine ⟨⟨work', hid ▸ hfind, hbuild.trans hclaimBuild, hcpt.trans hclaimComponent⟩,
    fun hsome => ?_, hobjs⟩
  obtain ⟨hlogs, hphase⟩ := searchDeletion_isSome hp.deletion hsome
  have hsound := hleads.sound.work work' (Table.mem_of_find? hfind)
  have hhid := hsound.hidden (by rw [hphase]; decide) (by rw [hphase]; decide)
  rw [hbuild, hclaimBuild, hlogs] at hhid
  refine ⟨?_, hhid⟩
  show claim.component = .logs
  rw [← hclaimComponent, ← hcpt, hlogs]

/-- The claims that a claim call returns name their work rows. -/
theorem claim_isClaimOf {request : ClaimRetentionWork} {locked : List RetentionWorkId}
    {claims : List RetentionWorkClaim} (h : (s.claim request locked).2 = .ok claims) :
    ∀ claim ∈ claims, (s.claim request locked).1.IsClaimOf claim := by
  intro claim hclaim
  obtain ⟨work, hwork, hinto⟩ := forall₂_exists_left (mapM_eq_ok.mp h) hclaim
  obtain ⟨selected, hsel, rfl⟩ := mem_map.mp (mem_mergeSort.mp hwork)
  obtain ⟨hid, hbuild, hcpt, -⟩ := intoClaim_eq_ok hinto
  have hmem := (mem_claimPage hsel).1
  refine ⟨selected.acquire ⟨request.owner, request.claimExpiresAt⟩, ?_, hbuild.symm, hcpt.symm⟩
  rw [claim_work, hid, RetentionWork.acquire_id,
    Table.find?_updateWhere_of_some _ (s.work.find?_of_mem hmem), if_pos (decide_eq_true hsel)]

end ResultDb

/-! ## Steps -/

namespace RetentionSystem

variable (ids : DerivedIds) (policy : DurableRetryPolicy) (σ : RetentionSystem)

/-- A transaction outside the passes that succeeds. -/
inductive Commits : ResultEvent → ResultDb → Prop
  | placeHold {request : PlaceBuildResultHold} {db : ResultDb}
      (h : σ.db.placeHold request = .ok db) : Commits (.placeHold request) db
  | releaseHold {request : ReleaseBuildResultHold} {db : ResultDb}
      (h : σ.db.releaseHold request = .ok db) : Commits (.releaseHold request) db
  | beginUpload {request : BeginArtifactUpload} {db : ResultDb}
      (h : σ.db.beginUpload request = .ok db) : Commits (.beginUpload request) db
  | verifyUpload {request : VerifyArtifactUpload} {result : Option ArtifactVerificationResult}
      {db : ResultDb} (h : σ.db.changeVerification request result = .ok db) :
      Commits (.verifyUpload request result) db
  | appendLogs {access : Except ResultError Unit} {origin : LogOrigin} {acceptedAt : Timestamp}
      {chunks : List LogChunkManifest} {db : ResultDb}
      (h : σ.db.persistLogChunks access origin acceptedAt chunks = .ok db) :
      Commits (.appendLogs access origin acceptedAt chunks) db
  | insertBuild {build : NewBuild} {db : ResultDb} (h : σ.db.insertBuild ids build = .ok db) :
      Commits (.insertBuild build) db
  /-- Links, references and the Factory tables. -/
  | factory {event : ResultEvent} {db : ResultDb}
      (h : db = { σ.db with
        factory := db.factory, executionBuild := db.executionBuild
        expectedDigest := db.expectedDigest, textCleanupStarted := db.textCleanupStarted }) :
      Commits event db

/-- The effects a step can have. -/
inductive Moves : ResultEvent → RetentionSystem → Prop
  | idle {event : ResultEvent} : Moves event σ
  | claimed {request : ClaimRetentionWork} {locked : List RetentionWorkId}
      {claims : List RetentionWorkClaim}
      (h : claims = [] ∨ (σ.db.claim request locked).2 = .ok claims) :
      Moves (.claim request locked)
        { σ with
          db := (σ.db.claim request locked).1
          passes := claims.map (⟨·, .claimed⟩) ++ σ.passes }
  /-- A failed transaction ends its pass. -/
  | dropped {event : ResultEvent} {pass : RetentionPass} :
      Moves event { σ with passes := σ.passes.erase pass }
  | prepared {claim : RetentionWorkClaim} {limit : BatchLimit} {calledAt : Timestamp} {db : ResultDb}
      {preparation : RetentionPreparation} (hpass : ⟨claim, .claimed⟩ ∈ σ.passes)
      (h : σ.db.prepare ids ⟨claim.workId, claim.owner, calledAt, limit⟩ = .ok (db, preparation)) :
      Moves (.call ⟨claim, .claimed⟩ limit calledAt)
        { σ with
          db
          passes := ⟨claim, .prepared preparation.searchDeletion preparation.objects⟩ ::
            σ.passes.erase ⟨claim, .claimed⟩ }
  | searched {claim : RetentionWorkClaim} {deletion : DeleteLogSearchDocuments}
      {objects : List RetentionObject} {limit : BatchLimit} {calledAt : Timestamp} {db : ResultDb}
      (hpass : ⟨claim, .prepared (some deletion) objects⟩ ∈ σ.passes)
      (h : σ.db.completeSearch claim.workId claim.owner calledAt = .ok db) :
      Moves (.call ⟨claim, .prepared (some deletion) objects⟩ limit calledAt)
        { σ with
          db
          passes := ⟨claim, .prepared none objects⟩ ::
            σ.passes.erase ⟨claim, .prepared (some deletion) objects⟩ }
  | deleted {claim : RetentionWorkClaim} {object : RetentionObject} {rest : List RetentionObject}
      {limit : BatchLimit} {calledAt : Timestamp} {db : ResultDb}
      (hpass : ⟨claim, .prepared none (object :: rest)⟩ ∈ σ.passes)
      (h : σ.db.completeObject claim.workId claim.owner object.identity calledAt = .ok db) :
      Moves (.call ⟨claim, .prepared none (object :: rest)⟩ limit calledAt)
        { σ with
          db
          passes := ⟨claim, .prepared none rest⟩ ::
            σ.passes.erase ⟨claim, .prepared none (object :: rest)⟩ }
  | finished {claim : RetentionWorkClaim} {limit : BatchLimit} {calledAt : Timestamp} {db : ResultDb}
      {outcome : RetentionPassOutcome} (hpass : ⟨claim, .prepared none []⟩ ∈ σ.passes)
      (h : σ.db.finishPass claim.workId claim.owner calledAt = .ok (db, outcome)) :
      Moves (.call ⟨claim, .prepared none []⟩ limit calledAt)
        { σ with
          db
          passes := σ.passes.erase ⟨claim, .prepared none []⟩ }
  | failed {pass : RetentionPass} {error : PassError} {failedAt : Timestamp} {db : ResultDb}
      (hpass : pass ∈ σ.passes) (hraise : pass.stage.mayRaise error = true)
      (h : σ.db.fail (failure policy pass error failedAt) = .ok db) :
      Moves (.fail pass error failedAt)
        { db
          passes := σ.passes.erase pass
          failures := fun id =>
            if id = pass.claim.workId ∧ σ.isCurrent pass failedAt then σ.failures id + 1
            else σ.failures id }
  | committed {event : ResultEvent} {db : ResultDb} (h : σ.Commits ids event db) :
      Moves event { σ with db }

variable {ids policy σ}

theorem call_moves (hpass : pass ∈ σ.passes) (limit : BatchLimit) (calledAt : Timestamp) :
    σ.Moves ids policy (.call pass limit calledAt) (σ.call ids pass limit calledAt) := by
  obtain ⟨claim, stage⟩ := pass
  unfold call
  cases hadv : σ.advance ids ⟨claim, stage⟩ limit calledAt with
  | error error => exact .dropped
  | ok moved =>
    obtain ⟨db, next⟩ := moved
    match stage, hadv with
    | .claimed, hadv =>
      obtain ⟨⟨db, preparation⟩, hprep, h⟩ := bind_eq_ok.mp hadv
      cases h
      exact .prepared hpass hprep
    | .prepared (some deletion) objects, hadv =>
      obtain ⟨db, hsrch, h⟩ := bind_eq_ok.mp hadv
      cases h
      exact .searched hpass hsrch
    | .prepared none (object :: rest), hadv =>
      obtain ⟨db, hobj, h⟩ := bind_eq_ok.mp hadv
      cases h
      exact .deleted hpass hobj
    | .prepared none [], hadv =>
      obtain ⟨⟨db, outcome⟩, hfin, h⟩ := bind_eq_ok.mp hadv
      cases h
      exact .finished hpass hfin

variable {event : ResultEvent}

theorem commit_moves {result : Except ResultError ResultDb}
    (h : ∀ db, result = .ok db → σ.Commits ids event db) :
    σ.Moves ids policy event (σ.commit result) := by
  cases result with
  | error error => exact .idle
  | ok db => exact .committed (h db rfl)

theorem step_moves (event : ResultEvent) : σ.Moves ids policy event (step ids policy σ event) := by
  cases event with
  | claim request locked =>
    show σ.Moves ids policy _ (σ.claim request locked)
    unfold RetentionSystem.claim
    split
    · rename_i db error heq
      have hdb : db = (σ.db.claim request locked).1 := by rw [heq]
      rw [hdb]
      exact .claimed (.inl rfl)
    · rename_i db claims heq
      have hdb : db = (σ.db.claim request locked).1 := by rw [heq]
      rw [hdb]
      exact .claimed (.inr (by rw [heq]))
  | call pass limit calledAt =>
    show σ.Moves ids policy _ (if pass ∈ σ.passes then _ else σ)
    split
    · rename_i hpass
      exact call_moves hpass limit calledAt
    · exact .idle
  | fail pass error failedAt =>
    show σ.Moves ids policy _ (if pass ∈ σ.passes ∧ pass.stage.mayRaise error then _ else σ)
    split
    · rename_i hfails
      unfold RetentionSystem.fail
      split
      · exact .dropped
      · rename_i db hfail
        exact .failed hfails.1 hfails.2 hfail
    · exact .idle
  | placeHold request => exact commit_moves fun _ h => .placeHold h
  | releaseHold request => exact commit_moves fun _ h => .releaseHold h
  | beginUpload request => exact commit_moves fun _ h => .beginUpload h
  | verifyUpload request result => exact commit_moves fun _ h => .verifyUpload h
  | appendLogs access origin acceptedAt chunks => exact commit_moves fun _ h => .appendLogs h
  | insertBuild build => exact commit_moves fun _ h => .insertBuild h
  | linkExecution run id nodeAttempt operation build => exact .committed (.factory rfl)
  | referenceArtifact run artifact role expected =>
    refine .committed (.factory ?_)
    unfold ResultDb.referenceArtifact
    dsimp only
    split <;> rfl
  | advanceFactory request =>
    unfold step
    dsimp only
    cases hadv : σ.db.advanceFactory request with
    | error error => exact .idle
    | ok advanced =>
      obtain ⟨⟨factory, _⟩, -, h⟩ := bind_eq_ok.mp hadv
      cases h
      exact .committed (.factory rfl)
  | factory next => exact .committed (.factory rfl)
  | startTextCleanup build => exact .committed (.factory rfl)

/-! ## Sound runs -/

/-- The Build Results and every pass over them are sound. -/
structure Sound (σ : RetentionSystem) : Prop where
  db : σ.db.Sound
  passes : ∀ pass ∈ σ.passes, σ.db.PassSound pass

/-- A step that leads the Build Results on and adds sound passes only. -/
structure Leads (σ σ' : RetentionSystem) : Prop where
  db : σ.db.Leads σ'.db
  passes : ∀ pass ∈ σ'.passes, pass ∈ σ.passes ∨ σ'.db.PassSound pass

variable {σ' : RetentionSystem} {db : ResultDb}

theorem Leads.sound {σ : RetentionSystem} (h : σ.Leads σ') (hs : σ.Sound) : σ'.Sound := by
  refine ⟨h.db.sound, fun pass hpass => ?_⟩
  rcases h.passes pass hpass with hold | hnew
  · exact (hs.passes pass hold).mono hs.db h.db.follows
  · exact hnew

theorem Commits.leads (h : σ.Commits ids event db) (hs : σ.db.Sound) : σ.db.Leads db := by
  cases h with
  | placeHold h =>
    rw [(placeHold_eq_ok h).choose_spec.2.2.2.1]
    exact leads_holds hs _
  | releaseHold h =>
    rw [(releaseHold_eq_ok h).1]
    exact leads_holds hs _
  | beginUpload h => exact leads_beginUpload hs h
  | verifyUpload h => exact leads_changeVerification hs h
  | appendLogs h => exact leads_persistLogChunks hs h
  | insertBuild h => exact leads_insertBuild hs h
  | factory h =>
    rw [h]
    exact hs.leads_of_eq rfl rfl rfl rfl

/-- The pass that takes the place of another one. -/
theorem leads_of_replaced {next : RetentionPass} (hdb : σ.db.Leads db) (hnext : db.PassSound next) :
    σ.Leads { σ with db, passes := next :: σ.passes.erase pass } := by
  refine ⟨hdb, fun other hother => ?_⟩
  rcases mem_cons.mp hother with rfl | hother
  · exact .inr hnext
  · exact .inl (mem_of_mem_erase hother)

theorem Moves.leads (h : σ.Moves ids policy event σ') (hs : σ.Sound) : σ.Leads σ' := by
  cases h with
  | idle => exact ⟨.refl hs.db, fun pass hpass => .inl hpass⟩
  | claimed hclaims =>
    refine ⟨leads_claim hs.db _ _, fun pass hpass => ?_⟩
    rcases mem_append.mp hpass with hnew | hold
    · obtain ⟨claim, hclaim, rfl⟩ := mem_map.mp hnew
      rcases hclaims with rfl | hclaims
      · cases hclaim
      · exact .inr ⟨claim_isClaimOf hclaims claim hclaim, trivial⟩
    · exact .inl hold
  | dropped => exact ⟨.refl hs.db, fun pass hpass => .inl (mem_of_mem_erase hpass)⟩
  | prepared hpass hprep =>
    obtain ⟨work, work', hprepd⟩ := prepare_eq_ok hprep
    exact leads_of_replaced (hprepd.leads hs.db)
      (hprepd.passSound hs.db rfl (hs.passes _ hpass).work)
  | searched hpass hsrch =>
    have hdb := leads_completeSearch hs.db hsrch
    have hnext := (hs.passes _ hpass).mono hs.db hdb.follows
    exact leads_of_replaced hdb ⟨hnext.work, fun hnone => (nomatch hnone), hnext.stage.2⟩
  | deleted hpass hobj =>
    have hpassSound := hs.passes _ hpass
    have hdb := leads_completeObject hs.db
      (hpassSound.stage.2 _ (mem_cons_self ..)) hobj
    have hnext := hpassSound.mono hs.db hdb.follows
    exact leads_of_replaced hdb ⟨hnext.work, fun hnone => (nomatch hnone),
      fun other hother => hnext.stage.2 other (mem_cons_of_mem _ hother)⟩
  | finished hpass hfin =>
    exact ⟨leads_finishPass hs.db hfin,
      fun pass hpass => .inl (mem_of_mem_erase hpass)⟩
  | failed hpass hraise hfail =>
    exact ⟨leads_fail hs.db hfail, fun pass hpass => .inl (mem_of_mem_erase hpass)⟩
  | committed hcmt =>
    exact ⟨hcmt.leads hs.db, fun pass hpass => .inl hpass⟩

theorem step_leads (hs : σ.Sound) (event : ResultEvent) : σ.Leads (step ids policy σ event) :=
  (step_moves event).leads hs

/-- Every run keeps the Build Results sound and moves nothing backward. -/
theorem run_leads (hs : σ.Sound) (events : List ResultEvent) :
    (run ids policy σ events).Sound ∧ σ.db.Follows (run ids policy σ events).db := by
  induction events generalizing σ with
  | nil => exact ⟨hs, .refl _⟩
  | cons event rest ih =>
    have hstep := @step_leads ids policy _ hs event
    obtain ⟨hsound, hfol⟩ := ih (hstep.sound hs)
    exact ⟨hsound, hstep.db.follows.trans hfol⟩

/-- A store without any Build. -/
def initial (factory : FactoryDb) (executionBuild : FactoryDigest → BuildId)
    (expectedDigest : FactoryRow → Option String) : RetentionSystem where
  db :=
    { builds := .empty
      holds := fun _ => .empty
      chunks := .empty
      outputs := .empty
      work := .empty
      indexing := .empty
      committedThrough := fun _ => 0
      orphans := .empty
      factory
      executionBuild
      expectedDigest
      textCleanupStarted := fun _ => false }
  passes := []
  failures := fun _ => 0

theorem initial_sound (factory : FactoryDb) (executionBuild : FactoryDigest → BuildId)
    (expectedDigest : FactoryRow → Option String) :
    (initial factory executionBuild expectedDigest).Sound :=
  ⟨⟨fun _ h => (nomatch h), fun _ h => (nomatch h), fun _ h => (nomatch h)⟩, fun _ h => (nomatch h)⟩

end RetentionSystem

end OctaCity.Retention
