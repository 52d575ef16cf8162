/-
  OctaCity.Retention.ResultSteps

  What each transaction on Build Results can change: which tables it writes, and
  which rows of them.
-/
import OctaCity.Retention.ResultWrites

namespace OctaCity.Retention

open Domain Lib List RetentionWork Store Table

namespace ResultDb

variable {ids : DerivedIds} {s s' : ResultDb} {build : BuildId} {observedAt : Timestamp}
  {id : RetentionWorkId} {owner : WorkerOwner} {work : RetentionWork}

/-! ## Claims and holds -/

theorem lockWork_eq_ok : s.lockWork id owner observedAt = .ok work ↔
    s.work.find? id = some work ∧ work.completedAt = none ∧
      work.isClaimedBy owner observedAt = true := by
  unfold lockWork
  cases s.work.find? id with
  | none =>
    constructor
    · intro h
      cases h
    · rintro ⟨h, -⟩
      cases h
  | some row =>
    dsimp only
    constructor
    · intro h
      split at h
      · rename_i hclaim
        cases h
        exact ⟨rfl, hclaim⟩
      · cases h
    · rintro ⟨h, hclaim⟩
      cases h
      exact if_pos hclaim

theorem intoClaim_eq_ok {claim : RetentionWorkClaim} (h : intoClaim work = .ok claim) :
    claim.workId = work.id ∧ claim.buildId = work.buildId ∧ claim.component = work.component ∧
      claim.attempt.val = work.attemptCount := by
  unfold intoClaim at h
  split at h
  · cases h
  · split at h
    · cases h
      exact ⟨rfl, rfl, rfl, rfl⟩
    · cases h

theorem addHold_eq_ok {row : HoldRow} (h : s.addHold build row = .ok s') :
    s' = { s with holds := s'.holds } ∧ s'.holds build = (s.holds build).add row ∧
      ∀ other, other ≠ build → s'.holds other = s.holds other := by
  unfold addHold at h
  split at h
  · cases h
    exact ⟨rfl, if_pos rfl, fun other hne => if_neg hne⟩
  · cases h

/-- A due expiry may add a hold version; the answer tells whether a hold is active. -/
theorem activeForRetention_eq_ok {held : Bool}
    (h : s.activeForRetention build observedAt = .ok (s', held)) :
    s' = { s with holds := s'.holds } ∧ held = (s.holds build).isActive observedAt ∧
      (∀ other, other ≠ build → s'.holds other = s.holds other) ∧
      (held = true → s'.holds build = s.holds build) ∧
      ∀ t, (s'.holds build).isActive t = true → (s.holds build).isActive t = true := by
  unfold activeForRetention at h
  cases hlatest : (s.holds build).latest with
  | none =>
    rw [hlatest] at h
    cases h
    refine ⟨rfl, ?_, fun _ _ => rfl, fun _ => rfl, fun _ ht => ht⟩
    simp [HoldHistory.isActive, hlatest]
  | some hold =>
    have hact : ∀ t, (s.holds build).isActive t = true ↔ hold.state t = .active := by
      intro t
      rw [HoldHistory.isActive_iff, hlatest]
      simp
    rw [hlatest] at h
    dsimp only at h
    split at h
    · -- A released or expired version stays the latest one.
      rename_i hterm
      cases h
      refine ⟨rfl, ?_, fun _ _ => rfl, fun _ => rfl, fun _ ht => ht⟩
      rw [eq_comm, Bool.eq_false_iff, Ne, hact, HoldRow.state_eq_active]
      rintro ⟨hrelsd, hexpd, -⟩
      simp [hrelsd, hexpd] at hterm
    · rename_i hopen
      have hrelsd : hold.releasedAt = none := by
        cases hrelsd : hold.releasedAt <;> simp_all
      have hexpd : hold.expiredAt = none := by
        cases hexpd : hold.expiredAt <;> simp_all
      cases hexps : hold.expiresAt with
      | none =>
        rw [hexps] at h
        cases h
        refine ⟨rfl, ?_, fun _ _ => rfl, fun _ => rfl, fun _ ht => ht⟩
        rw [eq_comm, hact, HoldRow.state_eq_active, hexps]
        exact ⟨hrelsd, hexpd, fun _ he => nomatch he⟩
      | some expiry =>
        rw [hexps] at h
        dsimp only at h
        split at h
        · rename_i hlt
          cases h
          refine ⟨rfl, ?_, fun _ _ => rfl, fun _ => rfl, fun _ ht => ht⟩
          rw [eq_comm, hact, HoldRow.state_eq_active, hexps]
          refine ⟨hrelsd, hexpd, ?_⟩
          rintro other hother
          cases hother
          exact hlt
        · -- The hold is due: a further version expires it.
          rename_i hdue
          obtain ⟨expired, hadd, h⟩ := bind_eq_ok.mp h
          cases h
          obtain ⟨hframe, hown, hother⟩ := addHold_eq_ok hadd
          refine ⟨hframe, ?_, hother, fun hfalse => (nomatch hfalse), ?_⟩
          · rw [eq_comm, Bool.eq_false_iff, Ne, hact, HoldRow.state_eq_active, hexps]
            rintro ⟨-, -, hlater⟩
            exact hdue (hlater expiry rfl)
          · intro t ht
            rw [hown, HoldHistory.isActive_iff, HoldHistory.latest_add] at ht
            obtain ⟨newest, hnewest, hstate⟩ := ht
            cases hnewest
            rw [HoldRow.state_eq_active] at hstate
            exact nomatch hstate.2.1

/-! ## Preparing -/

theorem isKeptByRun_holds (holds : BuildId → HoldHistory) :
    { s with holds }.isKeptByRun build = s.isKeptByRun build := rfl

theorem isReferenced_holds (holds : BuildId → HoldHistory) :
    { s with holds }.isReferenced build = s.isReferenced build := rfl

theorem lockBuildAndCheckRetention_eq_ok {retained : Bool}
    (h : s.lockBuildAndCheckRetention build observedAt = .ok (s', retained)) :
    s' = { s with holds := s'.holds } ∧ s.builds.contains build = true ∧
      retained = s.isRetained build observedAt ∧
      (∀ other, other ≠ build → s'.holds other = s.holds other) ∧
      ((s.holds build).isActive observedAt = true → s'.holds build = s.holds build) ∧
      ∀ t, (s'.holds build).isActive t = true → (s.holds build).isActive t = true := by
  unfold lockBuildAndCheckRetention at h
  split at h
  · rename_i hfound
    obtain ⟨⟨t, held⟩, hact, h⟩ := bind_eq_ok.mp h
    cases h
    obtain ⟨hframe, hheld, hother, hsame, hmono⟩ := activeForRetention_eq_ok hact
    refine ⟨hframe, hfound, ?_, hother, fun htrue => hsame (hheld.trans htrue), hmono⟩
    rw [hframe, isKeptByRun_holds, isReferenced_holds, hheld]
    unfold isRetained
    simp
  · cases h

theorem insertIndexing_eq_ok {row : LogIndexingWork} (h : s.insertIndexing row = .ok s') :
    s' = { s with indexing := s'.indexing } ∧
      (∀ other ∈ s.indexing.rows,
        ¬ (other.projectId = row.projectId ∧ other.position = row.position)) ∧
      s.indexing.insert? row = some s'.indexing := by
  unfold insertIndexing at h
  obtain ⟨hfresh, h⟩ := guard_eq_ok.mp h
  obtain ⟨indexing, hins, h⟩ := bind_eq_ok.mp h
  cases h
  refine ⟨rfl, ?_, okOr_eq_ok.mp hins⟩
  intro other hother hsame
  exact hfresh (any_eq_true.mpr ⟨other, hother, by simpa using hsame⟩)

theorem ensureIndexing_eq_ok {row : LogIndexingWork} (h : s.ensureIndexing row = .ok s') :
    s' = { s with indexing := s'.indexing } ∧
      (s.indexing.contains row.id = true ∧ s'.indexing = s.indexing ∨
        (∀ other ∈ s.indexing.rows,
          ¬ (other.projectId = row.projectId ∧ other.position = row.position)) ∧
        s.indexing.insert? row = some s'.indexing) := by
  unfold ensureIndexing at h
  split at h
  · rename_i hfound
    cases h
    exact ⟨rfl, .inl ⟨hfound, rfl⟩⟩
  · obtain ⟨hframe, hinserted⟩ := insertIndexing_eq_ok h
    exact ⟨hframe, .inr hinserted⟩

variable {work' : RetentionWork} {row : OutputRow} {event : ArtifactEvent}
  {objects : List RetentionObject} {component : BuildResultComponent} {limit : BatchLimit}
  {origin : LogOrigin}

/-- Work that has its search deletion keeps it; otherwise the next position of the
    Project is taken. -/
theorem allocateSearchDeletion_eq_ok
    (h : s.allocateSearchDeletion ids work observedAt = .ok (s', work')) :
    work.search.isSome = true ∧ s' = s ∧ work' = work ∨
      ∃ indexed, s.ensureIndexing (s.deletionWork ids work observedAt) = .ok indexed ∧
        work.search = none ∧ s.committedThrough work.projectId + 1 < 2 ^ 63 ∧
        s' = indexed.assignSearch work (ids.searchWork work.buildId)
          (s.committedThrough work.projectId + 1) ∧
        work' = work.allocate (ids.searchWork work.buildId)
          (s.committedThrough work.projectId + 1) := by
  unfold allocateSearchDeletion at h
  split at h
  · rename_i hsome
    cases h
    exact .inl ⟨hsome, rfl, rfl⟩
  · rename_i hnone
    dsimp only at h
    split at h
    · rename_i hbdd
      obtain ⟨indexed, hindexed, h⟩ := bind_eq_ok.mp h
      cases h
      exact .inr ⟨indexed, hindexed, Option.not_isSome_iff_eq_none.mp hnone, hbdd, rfl, rfl⟩
    · cases h

theorem sets_assignSearch {searchWork : LogIndexingWorkId} {position : Nat}
    (hfind : s.work.find? work.id = some work) :
    s.work.Sets (s.assignSearch work searchWork position).work
      (work.allocate searchWork position) :=
  sets_updateWhere hfind (fun _ => decide_eq_true_iff) _
    (allocate_id searchWork position)

theorem sets_enterPhase {phase : RetentionPhase} (hfind : s.work.find? id = some work) :
    s.work.Sets (s.enterPhase id phase).work (work.enter phase) :=
  sets_updateWhere hfind (fun _ => decide_eq_true_iff) _ (enter_id phase)

theorem hideRows_eq_ok (hfind : s.work.find? work.id = some work)
    (h : s.hideRows ids work observedAt = .ok (s', work')) :
    s' = { s with
        builds := s'.builds, chunks := s'.chunks, work := s'.work, indexing := s'.indexing
        committedThrough := s'.committedThrough } ∧
      s'.builds = (s.hideBuildComponent work.buildId work.component observedAt).builds ∧
      s'.chunks = (if work.component = .logs then (s.hideChunks work.buildId observedAt).chunks
        else s.chunks) ∧
      s.work.Sets s'.work work' ∧
      work' = { work with search := work'.search } ∧
      (work.component = .logs → work'.search.isSome = true) := by
  unfold hideRows at h
  dsimp only at h
  split at h
  · rename_i hlogs
    rw [if_pos hlogs]
    obtain ⟨hsrch, rfl, rfl⟩ | ⟨indexed, hindexed, -, -, rfl, rfl⟩ :=
      allocateSearchDeletion_eq_ok h
    · exact ⟨rfl, rfl, rfl, .refl hfind, rfl, fun _ => hsrch⟩
    · rw [(ensureIndexing_eq_ok hindexed).1]
      exact ⟨rfl, rfl, rfl, sets_assignSearch hfind, rfl, fun _ => rfl⟩
  all_goals
    rename_i hother
    cases h
    have hne : work.component ≠ .logs := by
      rw [hother]
      decide
    rw [if_neg hne]
    exact ⟨rfl, rfl, rfl, .refl hfind, rfl, fun hlogs => absurd hlogs hne⟩

/-- The tables that hiding a component writes. -/
theorem hideComponent_eq_ok (hfind : s.work.find? work.id = some work)
    (h : s.hideComponent ids work observedAt = .ok (s', work')) :
    s' = { s with
        builds := s'.builds, chunks := s'.chunks, work := s'.work, indexing := s'.indexing
        committedThrough := s'.committedThrough } ∧
      s'.builds = (s.hideBuildComponent work.buildId work.component observedAt).builds ∧
      s'.chunks = (if work.component = .logs then (s.hideChunks work.buildId observedAt).chunks
        else s.chunks) ∧
      s.work.Sets s'.work work' ∧
      work' = { work with phase := .hidden, search := work'.search } ∧
      (work.component = .logs → work'.search.isSome = true) := by
  obtain ⟨⟨t, row⟩, hrows, h⟩ := bind_eq_ok.mp h
  cases h
  obtain ⟨hframe, hblds, hchunks, hset, hrow, hsrch⟩ := hideRows_eq_ok hfind hrows
  have hid : row.id = work.id := by rw [hrow]
  refine ⟨?_, hblds, hchunks, ?_, ?_, hsrch⟩
  · rw [hframe]
    rfl
  · have hrowfind : t.work.find? row.id = some row := hset.1
    exact hset.trans (sets_enterPhase hrowfind) rfl
  · rw [hrow]
    rfl

/-! ## Objects -/

theorem updateArtifactAndUpload_eq_ok (h : s.updateArtifactAndUpload row event = .ok s') :
    s' = { s with outputs := s'.outputs } ∧
      ∃ row', s.outputs.Sets s'.outputs row' ∧ row' = { row with
        uploadState := row'.uploadState, uploadCompletedAt := row'.uploadCompletedAt } := by
  unfold updateArtifactAndUpload at h
  split at h
  · cases h
  · cases h
    exact ⟨rfl, _, sets_put _ _, rfl⟩

theorem keeps_apply {state : ArtifactState}
    (hpubd : state ≠ .published) (hdel : state ≠ .deleted) :
    row.Keeps (row.apply event state observedAt) :=
  ⟨rfl, rfl, rfl, fun h => absurd h hpubd, fun h => absurd h hdel⟩

/-- A withdrawn output is neither published nor deleted anew. -/
theorem withdrawOutput_eq_ok {row' : OutputRow} (hfind : s.outputs.find? row.id = some row)
    (h : withdrawOutput observedAt s row = .ok (s', row')) :
    s' = { s with outputs := s'.outputs } ∧ row.Keeps row' ∧
      ∃ stored, row.Keeps stored ∧ s.outputs.Sets s'.outputs stored := by
  unfold withdrawOutput at h
  split at h
  · cases h
    exact ⟨rfl, .refl row, row, .refl row, .refl hfind⟩
  · cases h
    exact ⟨rfl, .refl row, row, .refl row, .refl hfind⟩
  · cases h
  · -- A published output expires.
    rename_i hstate
    obtain ⟨expired, htrans, h⟩ := bind_eq_ok.mp h
    cases h
    obtain ⟨hmove, hrow⟩ := OutputRow.transition_eq_some (okOr_eq_ok.mp htrans)
    rw [hstate] at hmove
    have hexpd : row'.state = .expired := (Option.some.inj hmove).symm
    have hkeeps : row.Keeps row' := by
      rw [hrow, hexpd]
      exact keeps_apply (by decide) (by decide)
    exact ⟨rfl, hkeeps, row', hkeeps, sets_put _ _⟩
  · -- One that is being verified is pending again.
    rename_i hstate
    obtain ⟨pending, htrans, h⟩ := bind_eq_ok.mp h
    obtain ⟨t, hupdate, h⟩ := bind_eq_ok.mp h
    cases h
    obtain ⟨hmove, hrow⟩ := OutputRow.transition_eq_some (okOr_eq_ok.mp htrans)
    rw [hstate] at hmove
    have hpend : row'.state = .pending := (Option.some.inj hmove).symm
    have hkeeps : row.Keeps row' := by
      rw [hrow, hpend]
      exact keeps_apply (by decide) (by decide)
    obtain ⟨hframe, stored, hset, hstor⟩ := updateArtifactAndUpload_eq_ok hupdate
    refine ⟨hframe, hkeeps, stored, hkeeps.trans ?_, hset⟩
    rw [hstor]
    exact ⟨rfl, rfl, rfl, fun h => h, fun h => h⟩

theorem keeps_of_sets {stored : OutputRow} (hfind : s.outputs.find? row.id = some row)
    (hkeeps : row.Keeps stored) (hset : s.outputs.Sets s'.outputs stored) :
    s.outputs.Evolves OutputRow.Keeps (fun _ => False) s'.outputs := by
  constructor
  · intro k a ha
    by_cases hk : k = stored.id
    · subst hk
      rw [hkeeps.id, hfind] at ha
      cases ha
      exact ⟨stored, hset.1, hkeeps⟩
    · exact ⟨a, (hset.2 k hk).trans ha, .refl a⟩
  · intro k a ha
    by_cases hk : k = stored.id
    · subst hk
      cases hset.1.symm.trans ha
      exact .inl ⟨row, hkeeps.id ▸ hfind, hkeeps⟩
    · rw [hset.2 k hk] at ha
      exact .inl ⟨a, ha, .refl a⟩

theorem foldlM_withdrawOutput_eq_ok {page : List OutputRow} {s s' : ResultDb}
    {listed : List RetentionObject} (hnodup : (page.map (·.id)).Nodup)
    (hfind : ∀ row ∈ page, s.outputs.find? row.id = some row)
    (h : page.foldlM (fun (s, uploads) row => do
        let (s, row) ← withdrawOutput observedAt s row
        Except.ok (s, uploads ++ [RetentionObject.output row])) (s, listed) = .ok (s', objects)) :
    s' = { s with outputs := s'.outputs } ∧
      s.outputs.Evolves OutputRow.Keeps (fun _ => False) s'.outputs ∧
      ∃ rows, objects = listed ++ rows.map .output ∧ List.Forall₂ OutputRow.Keeps page rows := by
  induction page generalizing s listed with
  | nil =>
    cases h
    exact ⟨rfl, .refl OutputRow.Keeps.refl _, [], by simp, .nil⟩
  | cons row rest ih =>
    rw [foldlM_cons] at h
    obtain ⟨⟨t, uploads⟩, hstep, hrest⟩ := bind_eq_ok.mp h
    obtain ⟨⟨t', row'⟩, hwithdraw, hstep⟩ := bind_eq_ok.mp hstep
    cases hstep
    obtain ⟨hframe, hkeeps, stored, hstor, hset⟩ :=
      withdrawOutput_eq_ok (hfind row (mem_cons_self ..)) hwithdraw
    rw [map_cons, nodup_cons] at hnodup
    have hrestfind : ∀ other ∈ rest, t.outputs.find? other.id = some other := by
      intro other hother
      have hne : other.id ≠ stored.id := by
        rw [hstor.id]
        intro hsame
        exact hnodup.1 (mem_map.mpr ⟨other, hother, hsame⟩)
      exact (hset.2 other.id hne).trans (hfind other (mem_cons_of_mem _ hother))
    obtain ⟨hframe', hevos, rows, hobjs, hrows⟩ := ih hnodup.2 hrestfind hrest
    have hfirst := keeps_of_sets (hfind row (mem_cons_self ..)) hstor hset
    have hall : s.outputs.Evolves OutputRow.Keeps (fun _ => False) s'.outputs :=
      .trans (fun _ _ _ hab hbc => hab.trans hbc) (fun _ _ hfalse _ => hfalse) hfirst hevos
    refine ⟨?_, hall, row' :: rows, ?_, .cons hkeeps hrows⟩
    · rw [hframe', hframe]
    · rw [hobjs]
      simp

theorem mem_outputPage (h : row ∈ s.outputPage build component limit) :
    row ∈ s.outputs.rows ∧ row.buildId = build ∧ row.component = component ∧
      s.isVisible build component = false := by
  have hfilt := mem_filter.mp (mem_of_mem_take h)
  simp only [decide_eq_true_eq, Bool.not_eq_true] at hfilt
  exact ⟨hfilt.1, hfilt.2.1, hfilt.2.2.1, hfilt.2.2.2.1⟩

theorem outputPage_nodup : ((s.outputPage build component limit).map (·.id)).Nodup :=
  s.outputs.keys_nodup.sublist
    (((take_sublist _ _).trans filter_sublist).map _)

/-- An object of a hidden component of a Build. -/
def IsObjectOf (s : ResultDb) (build : BuildId) (component : BuildResultComponent) :
    RetentionObject → Prop
  | .log manifest => component = .logs ∧ ∃ row ∈ s.chunks.rows,
      row.manifest = manifest ∧ row.buildId = build ∧ row.visible = false
  | .output upload => ∃ row ∈ s.outputs.rows,
      row.id = upload.id ∧ row.buildId = build ∧ row.component = component ∧
        s.isVisible build component = false

theorem mem_logRetentionPage {object : RetentionObject}
    (h : object ∈ s.logRetentionPage build limit) :
    ∃ row ∈ s.chunks.rows, object = .log row.manifest ∧ row.buildId = build ∧
      row.visible = false ∧ row.deletedAt = none := by
  obtain ⟨row, hrow, rfl⟩ := mem_map.mp h
  have hfilt := mem_filter.mp (mem_of_mem_take hrow)
  simp only [decide_eq_true_eq, Bool.not_eq_true] at hfilt
  exact ⟨row, hfilt.1, rfl, hfilt.2⟩

theorem isVisible_outputs (outputs : Table OutputRow.id) :
    { s with outputs }.isVisible build component = s.isVisible build component := rfl

theorem retentionObjects_eq_ok (h : s.retentionObjects work limit observedAt = .ok (s', objects)) :
    s' = { s with outputs := s'.outputs } ∧
      s.outputs.Evolves OutputRow.Keeps (fun _ => False) s'.outputs ∧
      (∀ object ∈ objects, s'.IsObjectOf work.buildId work.component object) ∧
      (work.component = .logs → s' = s ∧ objects = s.logRetentionPage work.buildId limit) ∧
      (work.component = .metadata → s' = s ∧ objects = []) := by
  unfold retentionObjects at h
  have houts : work.component ≠ .logs → work.component ≠ .metadata →
      s.retentionPage work.buildId work.component limit observedAt = .ok (s', objects) →
      s' = { s with outputs := s'.outputs } ∧
      s.outputs.Evolves OutputRow.Keeps (fun _ => False) s'.outputs ∧
      (∀ object ∈ objects, s'.IsObjectOf work.buildId work.component object) ∧
      (work.component = .logs → s' = s ∧ objects = s.logRetentionPage work.buildId limit) ∧
      (work.component = .metadata → s' = s ∧ objects = []) := by
    intro hlogs hmeta hpage
    obtain ⟨hframe, hevos, rows, hobjs, hrows⟩ :=
      foldlM_withdrawOutput_eq_ok outputPage_nodup
        (fun row hrow => s.outputs.find?_of_mem (mem_outputPage hrow).1) hpage
    refine ⟨hframe, hevos, ?_, fun h => absurd h hlogs, fun h => absurd h hmeta⟩
    intro object hobj
    rw [hobjs, nil_append] at hobj
    obtain ⟨upload, hupload, rfl⟩ := mem_map.mp hobj
    obtain ⟨row, hrow, hkeeps⟩ := forall₂_exists_left hrows hupload
    obtain ⟨hmem, hbuild, hcpt, hhid⟩ := mem_outputPage hrow
    obtain ⟨stored, hstor, hkept⟩ := hevos.grows row.id row (s.outputs.find?_of_mem hmem)
    refine ⟨stored, mem_of_find? hstor, hkept.id.trans hkeeps.id.symm,
      hkept.buildId.trans hbuild, ?_, ?_⟩
    · rw [← hcpt, OutputRow.component, hkept.isReport, OutputRow.component]
    · rw [hframe, isVisible_outputs]
      exact hhid
  split at h
  · rename_i hmeta
    cases h
    exact ⟨rfl, .refl OutputRow.Keeps.refl _, fun _ hobj => (nomatch hobj),
      fun hlogs => (nomatch hmeta.symm.trans hlogs), fun _ => ⟨rfl, rfl⟩⟩
  · rename_i hlogs
    cases h
    refine ⟨rfl, .refl OutputRow.Keeps.refl _, ?_, fun _ => ⟨rfl, rfl⟩,
      fun hmeta => (nomatch hlogs.symm.trans hmeta)⟩
    intro object hobj
    obtain ⟨row, hrow, rfl, hbuild, hhid, -⟩ := mem_logRetentionPage hobj
    exact ⟨hlogs, row, hrow, rfl, hbuild, hhid⟩
  · rename_i hcpt
    exact houts (by rw [hcpt]; decide) (by rw [hcpt]; decide) h
  · rename_i hcpt
    exact houts (by rw [hcpt]; decide) (by rw [hcpt]; decide) h

/-! ## A prepared pass -/

/-- What `prepare` leaves: the component was hidden just now, or nothing but holds
    and outputs was written. -/
structure Prepared (ids : DerivedIds) (s s' : ResultDb) (request : PrepareRetentionWork)
    (work work' : RetentionWork) (preparation : RetentionPreparation) : Prop where
  locked : s.lockWork request.workId request.owner request.observedAt = .ok work
  found : s.builds.contains work.buildId = true
  hidden :
    (work.phase = .pending ∧ s.isRetained work.buildId request.observedAt = false ∧
      ∃ t, { s with holds := s'.holds }.hideComponent ids work request.observedAt = .ok (t, work') ∧
        s' = { t with outputs := s'.outputs }) ∨
    (work.phase = .pending → s.isRetained work.buildId request.observedAt = true) ∧ work' = work ∧
      s' = { s with holds := s'.holds, outputs := s'.outputs }
  otherHolds : ∀ other, other ≠ work.buildId → s'.holds other = s.holds other
  activeHold : (s.holds work.buildId).isActive request.observedAt = true →
    s'.holds work.buildId = s.holds work.buildId
  lateHold : ∀ t, (s'.holds work.buildId).isActive t = true →
    (s.holds work.buildId).isActive t = true
  outputs : s.outputs.Evolves OutputRow.Keeps (fun _ => False) s'.outputs
  deletion : searchDeletion work' = .ok preparation.searchDeletion
  objects : ∀ object ∈ preparation.objects, s'.IsObjectOf work'.buildId work'.component object
  logObjects : work'.component = .logs → preparation.objects =
    if work'.phase = .searchDeleted then s'.logRetentionPage work'.buildId request.objectLimit
    else []

theorem readyObjects_eq_ok (h : s.readyObjects work limit observedAt = .ok (s', objects)) :
    s' = { s with outputs := s'.outputs } ∧
      s.outputs.Evolves OutputRow.Keeps (fun _ => False) s'.outputs ∧
      (∀ object ∈ objects, s'.IsObjectOf work.buildId work.component object) ∧
      (work.component = .logs → s' = s ∧ objects =
        if work.phase = .searchDeleted then s.logRetentionPage work.buildId limit else []) ∧
      (work.component = .metadata → s' = s ∧ objects = []) := by
  unfold readyObjects at h
  split at h
  · rename_i hwaits
    cases h
    refine ⟨rfl, .refl OutputRow.Keeps.refl _, fun _ hobj => (nomatch hobj),
      fun _ => ⟨rfl, (if_neg hwaits.2).symm⟩, fun _ => ⟨rfl, rfl⟩⟩
  · rename_i hready
    obtain ⟨hframe, hevos, hobjs, hlogs, hmeta⟩ := retentionObjects_eq_ok h
    refine ⟨hframe, hevos, hobjs, fun hcpt => ?_, hmeta⟩
    have hphase : work.phase = .searchDeleted := by
      by_contra hne
      exact hready ⟨hcpt, hne⟩
    rw [if_pos hphase]
    exact hlogs hcpt

theorem prepare_eq_ok {request : PrepareRetentionWork} {preparation : RetentionPreparation}
    (h : s.prepare ids request = .ok (s', preparation)) :
    ∃ work work', Prepared ids s s' request work work' preparation := by
  obtain ⟨work, hlock, h⟩ := bind_eq_ok.mp h
  obtain ⟨⟨held, retained⟩, hcheck, h⟩ := bind_eq_ok.mp h
  obtain ⟨⟨t, work'⟩, hhide, h⟩ := bind_eq_ok.mp h
  obtain ⟨deletion, hdeletion, h⟩ := bind_eq_ok.mp h
  obtain ⟨⟨t', objects⟩, hready, h⟩ := bind_eq_ok.mp h
  cases h
  obtain ⟨hheld, hfound, hret, hother, hact, hlate⟩ :=
    lockBuildAndCheckRetention_eq_ok hcheck
  obtain ⟨hlast, hevos, hobjs, hlogs, -⟩ := readyObjects_eq_ok hready
  have hfind := (lockWork_eq_ok.mp hlock).1
  have hid := key_of_find? hfind
  -- The check writes holds only, the page outputs only.
  unfold hideUnretained at hhide
  split at hhide
  · rename_i hpend
    have hheldfind : held.work.find? work.id = some work := by
      rw [hheld, hid]
      exact hfind
    obtain ⟨hframe, -⟩ := hideComponent_eq_ok hheldfind hhide
    have hholds : s'.holds = held.holds := by rw [hlast, hframe]
    have houts : t.outputs = s.outputs := by rw [hframe, hheld]
    refine ⟨work, work', hlock, hfound, .inl ⟨hpend.1, ?_, t, ?_, hlast⟩, ?_, ?_, ?_, ?_,
      hdeletion, hobjs, fun hcpt => ?_⟩
    · rw [← hret]
      exact Bool.not_eq_true _ ▸ hpend.2
    · rw [hholds, ← hheld]
      exact hhide
    · rw [hholds]
      exact hother
    · rw [hholds]
      exact hact
    · rw [hholds]
      exact hlate
    · rw [← houts]
      exact hevos
    · rw [(hlogs hcpt).1]
      exact (hlogs hcpt).2
  · rename_i hkept
    cases hhide
    have hholds : s'.holds = held.holds := by rw [hlast]
    have houts : held.outputs = s.outputs := by rw [hheld]
    refine ⟨work, work, hlock, hfound, .inr ⟨?_, rfl, ?_⟩, ?_, ?_, ?_, ?_, hdeletion, hobjs,
      fun hcpt => ?_⟩
    · intro hpend
      rw [← hret]
      by_contra hfree
      exact hkept ⟨hpend, hfree⟩
    · rw [hlast, hheld]
    · rw [hholds]
      exact hother
    · rw [hholds]
      exact hact
    · rw [hholds]
      exact hlate
    · rw [← houts]
      exact hevos
    · rw [(hlogs hcpt).1]
      exact (hlogs hcpt).2

/-! ## Settling a pass -/

theorem completeSearch_eq_ok (h : s.completeSearch id owner observedAt = .ok s') :
    ∃ work, s.lockWork id owner observedAt = .ok work ∧ work.component = .logs ∧
      ((work.phase = .hidden ∧ ∃ searchWork position, work.search = some (searchWork, position) ∧
          s' = (s.settleIndexing work searchWork position observedAt).enterPhase id .searchDeleted) ∨
        work.phase ≠ .hidden ∧ s' = s) := by
  obtain ⟨work, hlock, h⟩ := bind_eq_ok.mp h
  refine ⟨work, hlock, ?_⟩
  split at h
  · cases h
  · rename_i hlogs
    refine ⟨not_not.mp hlogs, ?_⟩
    split at h
    · rename_i hhid
      split at h
      · cases h
      · rename_i searchWork position hsrch
        cases h
        exact .inl ⟨hhid, searchWork, position, hsrch, rfl⟩
    · rename_i hother
      cases h
      exact .inr ⟨hother, rfl⟩

theorem completeLog_eq_ok {chunk : LogChunkId} (h : s.completeLog build chunk observedAt = .ok s') :
    ∃ row, s.chunks.find? chunk = some row ∧ row.buildId = build ∧
      (row.visible = false ∧ row.deletedAt = none ∧ s' = { s with chunks := s'.chunks } ∧
          s.chunks.Sets s'.chunks (row.delete observedAt) ∨
        row.deletedAt.isSome = true ∧ s' = s) := by
  unfold completeLog at h
  split at h
  · cases h
  · rename_i row hfind
    obtain ⟨hbuild, h⟩ := guard_eq_ok.mp h
    refine ⟨row, hfind, not_not.mp hbuild, ?_⟩
    split at h
    · rename_i hdue
      cases h
      refine .inl ⟨Bool.not_eq_true _ ▸ hdue.1, hdue.2, rfl, ?_⟩
      exact sets_updateWhere hfind (fun _ => decide_eq_true_iff) _
        (ResultLogRow.delete_chunkId observedAt)
    · split at h
      · rename_i hdel
        cases h
        exact .inr ⟨hdel, rfl⟩
      · cases h

theorem deletedOutput_eq_ok {row' : OutputRow} (h : deletedOutput row observedAt = .ok row') :
    row'.id = row.id ∧ row'.buildId = row.buildId ∧ row'.isReport = row.isReport ∧
      row'.state = .deleted := by
  unfold deletedOutput at h
  split at h
  · rename_i hstate
    cases h
    exact ⟨rfl, rfl, rfl, hstate⟩
  · rename_i hstate
    obtain ⟨hmove, hrow⟩ := OutputRow.transition_eq_some (okOr_eq_ok.mp h)
    rw [hstate] at hmove
    rw [hrow]
    exact ⟨rfl, rfl, rfl, (Option.some.inj hmove).symm⟩
  · rename_i hstate
    obtain ⟨hmove, hrow⟩ := OutputRow.transition_eq_some (okOr_eq_ok.mp h)
    rw [hstate] at hmove
    rw [hrow]
    exact ⟨rfl, rfl, rfl, (Option.some.inj hmove).symm⟩
  · cases h
  · cases h

theorem completeRetention_eq_ok {artifact : ArtifactId}
    (h : s.completeRetention artifact observedAt = .ok s') :
    ∃ row row', s.outputs.find? artifact = some row ∧ s' = { s with outputs := s'.outputs } ∧
      s.outputs.Sets s'.outputs row' ∧ row'.id = row.id ∧ row'.buildId = row.buildId ∧
      row'.isReport = row.isReport ∧ row'.state = .deleted := by
  obtain ⟨row, hfind, h⟩ := bind_eq_ok.mp h
  obtain ⟨updated, hupdated, h⟩ := bind_eq_ok.mp h
  cases h
  obtain ⟨hid, hbuild, hreport, hstate⟩ := deletedOutput_eq_ok hupdated
  exact ⟨row, _, okOr_eq_ok.mp hfind, rfl, sets_put _ _, hid, hbuild, hreport, hstate⟩

theorem completeObject_eq_ok {object : RetentionObjectIdentity}
    (h : s.completeObject id owner object observedAt = .ok s') :
    ∃ work, s.lockWork id owner observedAt = .ok work ∧
      ((∃ chunk, object = .log chunk ∧ work.component = .logs ∧
          s.completeLog work.buildId chunk observedAt = .ok s') ∨
        ∃ artifact, object = .output artifact ∧
          s.completeRetention artifact observedAt = .ok s') := by
  obtain ⟨work, hlock, h⟩ := bind_eq_ok.mp h
  refine ⟨work, hlock, ?_⟩
  split at h
  · rename_i hlogs _
    exact .inl ⟨_, rfl, hlogs, h⟩
  · exact .inr ⟨_, rfl, h⟩
  · exact .inr ⟨_, rfl, h⟩
  · cases h

/-- The row that a finished pass leaves, and the outcome it reports. -/
def finished (work : RetentionWork) (remaining : Bool) (finishedAt : Timestamp) :
    RetentionWork × RetentionPassOutcome :=
  if work.phase = .pending then (work.yield none, .pending)
  else if (work.component ≠ .logs ∨ work.phase = .searchDeleted) ∧ ¬ remaining then
    (work.complete finishedAt, .completed)
  else (work.yield (some finishedAt), .pending)

theorem finishPass_eq_ok {outcome : RetentionPassOutcome}
    (h : s.finishPass id owner observedAt = .ok (s', outcome)) :
    ∃ work remaining, s.lockWork id owner observedAt = .ok work ∧
      s.remainingObjects work = .ok remaining ∧ s' = { s with work := s'.work } ∧
      s.work.Sets s'.work (finished work remaining observedAt).1 ∧
      outcome = (finished work remaining observedAt).2 := by
  obtain ⟨work, hlock, h⟩ := bind_eq_ok.mp h
  obtain ⟨remaining, hrem, h⟩ := bind_eq_ok.mp h
  have hfind := (lockWork_eq_ok.mp hlock).1
  refine ⟨work, remaining, hlock, hrem, ?_⟩
  unfold finished
  split at h
  · rename_i hpend
    cases h
    rw [if_pos hpend]
    exact ⟨rfl, sets_updateWhere hfind (fun _ => decide_eq_true_iff) _
      (yield_id none), rfl⟩
  · rename_i hpend
    rw [if_neg hpend]
    split at h
    · rename_i hdone
      cases h
      rw [if_pos hdone]
      exact ⟨rfl, sets_updateWhere hfind (fun _ => decide_eq_true_iff) _
        (complete_id observedAt), rfl⟩
    · rename_i hdone
      cases h
      rw [if_neg hdone]
      exact ⟨rfl, sets_updateWhere hfind (fun _ => decide_eq_true_iff) _
        (yield_id (some observedAt)), rfl⟩

theorem fail_eq_ok {request : FailRetentionWork} (h : s.fail request = .ok s') :
    ∃ work, s.work.find? request.workId = some work ∧
      (work.isClaimedBy request.owner request.failedAt = true ∧
          s' = { s with work := s'.work } ∧
          s.work.Sets s'.work
            (work.recordFailure ⟨request.errorCode, request.failedAt, request.retryAt⟩) ∨
        work.isClaimedBy request.owner request.failedAt = false ∧ s' = s) := by
  unfold fail at h
  split at h
  · cases h
  · rename_i work hfind
    refine ⟨work, hfind, ?_⟩
    dsimp only at h
    split at h
    · rename_i hclaim
      cases h
      refine .inl ⟨hclaim, rfl, ?_⟩
      exact sets_updateWhere hfind (fun _ => decide_eq_true_iff) _
        (recordFailure_id _)
    · rename_i hclaim
      split at h
      · cases h
        exact .inr ⟨Bool.not_eq_true _ ▸ hclaim, rfl⟩
      · cases h

/-! ## Other writes -/

theorem placeHold_eq_ok {request : PlaceBuildResultHold} (h : s.placeHold request = .ok s') :
    ∃ row, s.builds.find? request.buildId = some row ∧ row.isComplete = true ∧
      (s.holds request.buildId).isActive request.placedAt = false ∧
      s' = { s with holds := s'.holds } ∧
      s'.holds request.buildId = (s.holds request.buildId).add
        ⟨0, request.placedAt, request.expiresAt, none, none⟩ ∧
      ∀ other, other ≠ request.buildId → s'.holds other = s.holds other := by
  unfold placeHold at h
  obtain ⟨-, h⟩ := guard_eq_ok.mp h
  obtain ⟨row, hfind, h⟩ := bind_eq_ok.mp h
  dsimp only at h
  obtain ⟨-, h⟩ := guard_eq_ok.mp h
  obtain ⟨hcompl, h⟩ := guard_eq_ok.mp h
  obtain ⟨hinactive, h⟩ := guard_eq_ok.mp h
  obtain ⟨-, h⟩ := guard_eq_ok.mp h
  obtain ⟨hframe, hown, hother⟩ := addHold_eq_ok h
  refine ⟨row, okOr_eq_ok.mp hfind, not_not.mp hcompl, ?_, hframe, hown, hother⟩
  rw [← Bool.not_eq_true, HoldHistory.isActive_iff]
  exact fun hact => hinactive hact

theorem releaseHold_eq_ok {request : ReleaseBuildResultHold} (h : s.releaseHold request = .ok s') :
    s' = { s with holds := s'.holds } ∧
      ∀ other, other ≠ request.buildId → s'.holds other = s.holds other := by
  obtain ⟨_, -, h⟩ := bind_eq_ok.mp h
  obtain ⟨latest, -, h⟩ := bind_eq_ok.mp h
  obtain ⟨-, h⟩ := guard_eq_ok.mp h
  obtain ⟨-, h⟩ := guard_eq_ok.mp h
  obtain ⟨hframe, -, hother⟩ := addHold_eq_ok h
  exact ⟨hframe, hother⟩

theorem beginUpload_eq_ok {request : BeginArtifactUpload} (h : s.beginUpload request = .ok s') :
    ∃ row, s' = { s with outputs := s'.outputs } ∧
      s.outputs.insert? row = some s'.outputs ∧ row.state = .pending ∧
      s.builds.contains row.buildId = true := by
  unfold beginUpload at h
  obtain ⟨-, h⟩ := check_eq_ok.mp h
  obtain ⟨deadline, hdead, h⟩ := bind_eq_ok.mp h
  obtain ⟨build, hbuild, -⟩ := bind_eq_ok.mp hdead
  dsimp only at h
  obtain ⟨-, h⟩ := guard_eq_ok.mp h
  obtain ⟨outputs, hins, h⟩ := bind_eq_ok.mp h
  cases h
  refine ⟨_, rfl, okOr_eq_ok.mp hins, rfl, ?_⟩
  rw [contains_eq_isSome, okOr_eq_ok.mp hbuild]
  rfl

theorem verificationEvent_ne_delete {result : Option ArtifactVerificationResult}
    {state : ArtifactState} (h : verificationEvent result state = .ok (some event))
    (hdel : state.transition event = some .deleted) : False := by
  cases event <;> cases state <;> try cases hdel
  all_goals
    cases result with
    | none => cases h
    | some result => cases result <;> cases h

/-- A verification writes one output of a visible component, or nothing. -/
theorem changeVerification_eq_ok {request : VerifyArtifactUpload}
    {result : Option ArtifactVerificationResult} (h : s.changeVerification request result = .ok s') :
    ∃ row ∈ s.outputs.rows, s.isVisible row.buildId row.component = true ∧
      (s' = s ∨ s' = { s with outputs := s'.outputs } ∧
        ∃ row', s.outputs.Sets s'.outputs row' ∧ row'.id = row.id ∧ row'.buildId = row.buildId ∧
          row'.isReport = row.isReport ∧ row'.state ≠ .deleted) := by
  unfold changeVerification at h
  obtain ⟨-, h⟩ := check_eq_ok.mp h
  obtain ⟨row, hfind, h⟩ := bind_eq_ok.mp h
  obtain ⟨hvis, h⟩ := guard_eq_ok.mp h
  obtain ⟨event, hevent, h⟩ := bind_eq_ok.mp h
  have hmem : row ∈ s.outputs.rows := mem_of_find?_eq_some (okOr_eq_ok.mp hfind)
  refine ⟨row, hmem, not_not.mp hvis, ?_⟩
  cases event with
  | none =>
    cases h
    exact .inl rfl
  | some event =>
    obtain ⟨moved, htrans, h⟩ := bind_eq_ok.mp h
    obtain ⟨hmove, hrow⟩ := OutputRow.transition_eq_some (okOr_eq_ok.mp htrans)
    obtain ⟨hframe, row', hset, hstor⟩ := updateArtifactAndUpload_eq_ok h
    refine .inr ⟨hframe, row', hset, ?_⟩
    have hstate : moved.state ≠ .deleted := by
      intro hdel
      rw [hdel] at hmove
      exact verificationEvent_ne_delete hevent hmove
    rw [hstor]
    refine ⟨?_, ?_, ?_, hstate⟩ <;> rw [hrow] <;> rfl

/-- An archived chunk is new, takes the next position of its Project and is no orphan. -/
theorem insertLogChunk_eq_ok {chunk : LogChunkManifest}
    (h : insertLogChunk origin observedAt s chunk = .ok s') :
    s' = { s with
        chunks := s'.chunks, indexing := s'.indexing, orphans := s'.orphans
        committedThrough := s'.committedThrough } ∧
      s.chunks.insert? (chunkRow origin observedAt chunk) = some s'.chunks ∧
      s.committedThrough origin.projectId + 1 < 2 ^ 63 ∧
      (∀ other ∈ s.indexing.rows, ¬ (other.projectId = origin.projectId ∧
        other.position = s.committedThrough origin.projectId + 1)) ∧
      s.indexing.insert? (chunkWork origin observedAt chunk
        (s.committedThrough origin.projectId + 1)) = some s'.indexing ∧
      s'.orphans = (s.orphans.deleteWhere fun row => row.chunkId = chunk.chunkId) ∧
      s'.committedThrough = fun project =>
        if project = origin.projectId then s.committedThrough origin.projectId + 1
        else s.committedThrough project := by
  unfold insertLogChunk at h
  dsimp only at h
  obtain ⟨hbdd, h⟩ := guard_eq_ok.mp h
  obtain ⟨-, h⟩ := guard_eq_ok.mp h
  obtain ⟨chunks, hins, h⟩ := bind_eq_ok.mp h
  obtain ⟨t, hindexed, h⟩ := bind_eq_ok.mp h
  cases h
  obtain ⟨hframe, hfresh, hindexing⟩ := insertIndexing_eq_ok hindexed
  rw [hframe]
  exact ⟨rfl, okOr_eq_ok.mp hins, not_not.mp hbdd, hfresh, hindexing, rfl, rfl⟩

/-- Chunks are archived only while the logs of their Build are visible. -/
theorem persistLogChunks_eq_ok {access : Except ResultError Unit} {chunks : List LogChunkManifest}
    (h : s.persistLogChunks access origin observedAt chunks = .ok s') :
    chunks = [] ∧ s' = s ∨ s.isVisible origin.buildId .logs = true ∧
      chunks.foldlM (insertLogChunk origin observedAt) s = .ok s' := by
  unfold persistLogChunks at h
  obtain ⟨-, h⟩ := check_eq_ok.mp h
  split at h
  · rename_i hempty
    cases h
    exact .inl ⟨isEmpty_iff.mp hempty, rfl⟩
  · obtain ⟨row, hfind, h⟩ := bind_eq_ok.mp h
    obtain ⟨hvis, h⟩ := guard_eq_ok.mp h
    refine .inr ⟨?_, h⟩
    rw [isVisible, okOr_eq_ok.mp hfind]
    exact not_not.mp hvis

/-- A chunk row that was archived just now. -/
def IsNewChunk (build : BuildId) (row : ResultLogRow) : Prop :=
  row.buildId = build ∧ row.visible = true ∧ row.deletedAt = none

theorem foldlM_insertLogChunk_eq_ok {chunks : List LogChunkManifest}
    (h : chunks.foldlM (insertLogChunk origin observedAt) s = .ok s') :
    s' = { s with
        chunks := s'.chunks, indexing := s'.indexing, orphans := s'.orphans
        committedThrough := s'.committedThrough } ∧
      s.chunks.Evolves Eq (IsNewChunk origin.buildId) s'.chunks := by
  induction chunks generalizing s with
  | nil =>
    cases h
    exact ⟨rfl, .refl (fun _ => rfl) _⟩
  | cons chunk rest ih =>
    rw [foldlM_cons] at h
    obtain ⟨t, hfirst, hrest⟩ := bind_eq_ok.mp h
    obtain ⟨hframe, hins, -⟩ := insertLogChunk_eq_ok hfirst
    obtain ⟨hframe', hevos⟩ := ih hrest
    refine ⟨?_, ?_⟩
    · rw [hframe', hframe]
    · have hnew : s.chunks.Evolves Eq (IsNewChunk origin.buildId) t.chunks :=
        .insert? (fun _ => rfl) ⟨rfl, rfl, rfl⟩ hins
      exact .trans (fun _ _ _ hab hbc => hab.trans hbc) (fun _ _ hrow heq => heq ▸ hrow) hnew hevos

/-- A work row of a Build that was created just now. -/
def IsNewWork (build : BuildId) (work : RetentionWork) : Prop :=
  work.buildId = build ∧ work.phase = .pending ∧ work.claim = none ∧ work.completedAt = none ∧
    work.search = none

theorem insertBuild_eq_ok {build : NewBuild} (h : s.insertBuild ids build = .ok s') :
    s' = { s with builds := s'.builds, work := s'.work } ∧
      (∃ row, s.builds.insert? row = some s'.builds ∧ row.id = build.id ∧
        ∀ component, row.visible component = true) ∧
      s.work.Evolves Eq (IsNewWork build.id) s'.work := by
  obtain ⟨builds, hins, h⟩ := bind_eq_ok.mp h
  obtain ⟨work, hwork, h⟩ := bind_eq_ok.mp h
  cases h
  refine ⟨rfl, ⟨_, okOr_eq_ok.mp hins, rfl, fun _ => rfl⟩, ?_⟩
  refine .insertAll (fun _ => rfl) (fun _ _ _ hab hbc => hab.trans hbc)
    (fun _ _ hrow heq => heq ▸ hrow) ?_ hwork
  intro row hrow
  obtain ⟨component, -, rfl⟩ := mem_map.mp hrow
  exact ⟨rfl, rfl, rfl, rfl, rfl⟩

end ResultDb

end OctaCity.Retention
