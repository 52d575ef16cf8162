/-
  OctaCity.Retention.ResultSound

  What every transaction on Build Results keeps: work, chunks and outputs agree
  with the visibility of their component, and nothing moves backward.
-/
import OctaCity.Retention.ResultWorker

namespace OctaCity.Retention

open Domain Lib Store Table

/-! ## Moving forward -/

namespace RetentionPhase

def isOpen : RetentionPhase → Bool
  | pending | hidden | searchDeleted => true
  | bytesDeleted | deadLetter => false

def rank : RetentionPhase → Nat
  | pending => 0
  | hidden => 1
  | searchDeleted => 2
  | bytesDeleted => 3
  | deadLetter => 4

/-- Open work moves up the ranks; ended work stays where it is. -/
def Precedes (a b : RetentionPhase) : Prop := a = b ∨ a.isOpen = true ∧ a.rank < b.rank

theorem Precedes.refl (a : RetentionPhase) : a.Precedes a := .inl rfl

theorem Precedes.trans {a b c : RetentionPhase} (h : a.Precedes b) (h' : b.Precedes c) :
    a.Precedes c := by
  rcases h with rfl | ⟨hopen, hlt⟩
  · exact h'
  · rcases h' with rfl | ⟨-, hlt'⟩
    · exact .inr ⟨hopen, hlt⟩
    · exact .inr ⟨hopen, hlt.trans hlt'⟩

end RetentionPhase

/-- Components are only hidden. -/
def BuildResultRow.Follows (a b : BuildResultRow) : Prop :=
  ∀ component, b.visible component = true → a.visible component = true

/-- A chunk stays the chunk it is, and stays hidden and deleted. -/
structure ResultLogRow.Follows (a b : ResultLogRow) : Prop where
  manifest : b.manifest = a.manifest
  buildId : b.buildId = a.buildId
  hidden : a.visible = false → b.visible = false
  deleted : a.deletedAt.isSome = true → b.deletedAt.isSome = true

/-- An output stays the output it is. -/
structure OutputRow.Follows (a b : OutputRow) : Prop where
  buildId : b.buildId = a.buildId
  isReport : b.isReport = a.isReport

structure RetentionWork.Follows (a b : RetentionWork) : Prop where
  buildId : b.buildId = a.buildId
  component : b.component = a.component
  phase : a.phase.Precedes b.phase

theorem BuildResultRow.Follows.refl (a : BuildResultRow) : a.Follows a := fun _ h => h

theorem BuildResultRow.Follows.trans {a b c : BuildResultRow} (h : a.Follows b) (h' : b.Follows c) :
    a.Follows c := fun component hvis => h component (h' component hvis)

theorem ResultLogRow.Follows.refl (a : ResultLogRow) : a.Follows a :=
  ⟨rfl, rfl, fun h => h, fun h => h⟩

theorem ResultLogRow.Follows.trans {a b c : ResultLogRow} (h : a.Follows b) (h' : b.Follows c) :
    a.Follows c :=
  ⟨h'.manifest.trans h.manifest, h'.buildId.trans h.buildId,
    fun hhid => h'.hidden (h.hidden hhid), fun hdel => h'.deleted (h.deleted hdel)⟩

theorem OutputRow.Follows.refl (a : OutputRow) : a.Follows a := ⟨rfl, rfl⟩

variable {a b : OutputRow}

theorem OutputRow.Follows.trans {c : OutputRow} (h : a.Follows b) (h' : b.Follows c) :
    a.Follows c := ⟨h'.buildId.trans h.buildId, h'.isReport.trans h.isReport⟩

theorem OutputRow.Follows.component (h : a.Follows b) : b.component = a.component := by
  rw [OutputRow.component, OutputRow.component, h.isReport]

theorem OutputRow.Keeps.follows (h : a.Keeps b) : a.Follows b :=
  ⟨h.buildId, h.isReport⟩

theorem RetentionWork.Follows.refl (a : RetentionWork) : a.Follows a := ⟨rfl, rfl, .refl _⟩

theorem RetentionWork.Follows.trans {a b c : RetentionWork} (h : a.Follows b) (h' : b.Follows c) :
    a.Follows c :=
  ⟨h'.buildId.trans h.buildId, h'.component.trans h.component, h.phase.trans h'.phase⟩

namespace ResultDb

variable {ids : DerivedIds} {s s' s'' : ResultDb} {build : BuildId}
  {component : BuildResultComponent} {observedAt : Timestamp}

/-- No row disappears or moves backward. -/
structure Follows (s s' : ResultDb) : Prop where
  builds : s.builds.Grows BuildResultRow.Follows s'.builds
  chunks : s.chunks.Grows ResultLogRow.Follows s'.chunks
  outputs : s.outputs.Grows OutputRow.Follows s'.outputs
  work : s.work.Grows RetentionWork.Follows s'.work

theorem Follows.refl (s : ResultDb) : s.Follows s :=
  ⟨.refl BuildResultRow.Follows.refl _, .refl ResultLogRow.Follows.refl _,
    .refl OutputRow.Follows.refl _, .refl RetentionWork.Follows.refl _⟩

theorem Follows.trans (h : s.Follows s') (h' : s'.Follows s'') : s.Follows s'' :=
  ⟨h.builds.trans (fun _ _ _ hab hbc => hab.trans hbc) h'.builds,
    h.chunks.trans (fun _ _ _ hab hbc => hab.trans hbc) h'.chunks,
    h.outputs.trans (fun _ _ _ hab hbc => hab.trans hbc) h'.outputs,
    h.work.trans (fun _ _ _ hab hbc => hab.trans hbc) h'.work⟩

/-! ## Visibility -/

theorem contains_of_grows (h : s.builds.Grows BuildResultRow.Follows s'.builds)
    (hfound : s.builds.contains build = true) : s'.builds.contains build = true := by
  rw [contains_eq_isSome, Option.isSome_iff_exists] at hfound ⊢
  obtain ⟨row, hrow⟩ := hfound
  obtain ⟨row', hrow', -⟩ := h build row hrow
  exact ⟨row', hrow'⟩

theorem isVisible_congr (h : s'.builds = s.builds) :
    s'.isVisible build component = s.isVisible build component := by
  rw [isVisible, isVisible, h]

section

variable (h : s.builds.Grows BuildResultRow.Follows s'.builds)
  (hfound : s.builds.contains build = true)

include h hfound

/-- A component that is visible later was visible before. -/
theorem isVisible_of_grows (hvis : s'.isVisible build component = true) :
    s.isVisible build component = true := by
  rw [contains_eq_isSome, Option.isSome_iff_exists] at hfound
  obtain ⟨row, hrow⟩ := hfound
  obtain ⟨row', hrow', hfol⟩ := h build row hrow
  rw [isVisible, hrow'] at hvis
  rw [isVisible, hrow]
  exact hfol component hvis

theorem hidden_of_grows (hhid : s.isVisible build component = false) :
    s'.isVisible build component = false := by
  rw [← Bool.not_eq_true] at hhid ⊢
  exact fun hvis => hhid (isVisible_of_grows h hfound hvis)

end

/-! ## Soundness -/

structure WorkSound (s : ResultDb) (work : RetentionWork) : Prop where
  found : s.builds.contains work.buildId = true
  open_iff : work.completedAt = none ↔ work.phase.isOpen = true
  unclaimed : work.claim.isSome = true → work.completedAt = none
  hidden : work.phase ≠ .pending → work.phase ≠ .deadLetter →
    s.isVisible work.buildId work.component = false
  searched : work.phase = .searchDeleted → work.component = .logs
  assigned : work.phase = .hidden → work.component = .logs → work.search.isSome = true

structure ChunkSound (s : ResultDb) (row : ResultLogRow) : Prop where
  found : s.builds.contains row.buildId = true
  visible : row.visible = s.isVisible row.buildId .logs
  kept : row.visible = true → row.deletedAt = none

structure OutputSound (s : ResultDb) (row : OutputRow) : Prop where
  found : s.builds.contains row.buildId = true
  kept : row.state = .deleted → s.isVisible row.buildId row.component = false

/-- Every row agrees with the visibility of its component. -/
structure Sound (s : ResultDb) : Prop where
  work : ∀ work ∈ s.work.rows, s.WorkSound work
  chunks : ∀ row ∈ s.chunks.rows, s.ChunkSound row
  outputs : ∀ row ∈ s.outputs.rows, s.OutputSound row

variable {work : RetentionWork} {row : ResultLogRow} {table : Table OutputRow.id} {new : NewBuild}

theorem WorkSound.mono (h : s.WorkSound work)
    (hblds : s.builds.Grows BuildResultRow.Follows s'.builds) : s'.WorkSound work where
  found := contains_of_grows hblds h.found
  open_iff := h.open_iff
  unclaimed := h.unclaimed
  hidden hpend hdead := hidden_of_grows hblds h.found (h.hidden hpend hdead)
  searched := h.searched
  assigned := h.assigned

theorem OutputSound.mono {row : OutputRow} (h : s.OutputSound row)
    (hblds : s.builds.Grows BuildResultRow.Follows s'.builds) : s'.OutputSound row where
  found := contains_of_grows hblds h.found
  kept hdel := hidden_of_grows hblds h.found (h.kept hdel)

theorem ChunkSound.mono (h : s.ChunkSound row)
    (hblds : s.builds.Grows BuildResultRow.Follows s'.builds)
    (hvis : s'.isVisible row.buildId .logs = s.isVisible row.buildId .logs) :
    s'.ChunkSound row :=
  ⟨contains_of_grows hblds h.found, h.visible.trans hvis.symm, h.kept⟩

/-- A transaction that keeps the invariant and moves nothing backward. -/
structure Leads (s s' : ResultDb) : Prop where
  follows : s.Follows s'
  sound : s'.Sound

theorem Leads.refl (h : s.Sound) : s.Leads s := ⟨.refl s, h⟩

theorem Leads.trans (h : s.Leads s') (h' : s'.Leads s'') : s.Leads s'' :=
  ⟨h.follows.trans h'.follows, h'.sound⟩

/-- A transaction that leaves the Builds alone leads on when each other table does. -/
theorem leads_of_sameBuilds (hblds : s'.builds = s.builds)
    (hchunks : s.chunks.Grows ResultLogRow.Follows s'.chunks)
    (houts : s.outputs.Grows OutputRow.Follows s'.outputs)
    (hwork : s.work.Grows RetentionWork.Follows s'.work)
    (hchunkSound : ∀ row ∈ s'.chunks.rows, s.ChunkSound row)
    (houtputSound : ∀ row ∈ s'.outputs.rows, s.OutputSound row)
    (hworkSound : ∀ work ∈ s'.work.rows, s.WorkSound work) : s.Leads s' := by
  have hgrows : s.builds.Grows BuildResultRow.Follows s'.builds := by
    rw [hblds]
    exact .refl BuildResultRow.Follows.refl _
  exact ⟨⟨hgrows, hchunks, houts, hwork⟩, fun work hmem => (hworkSound work hmem).mono hgrows,
    fun row hmem => (hchunkSound row hmem).mono hgrows (isVisible_congr hblds),
    fun row hmem => (houtputSound row hmem).mono hgrows⟩

/-- Tables that the invariant does not speak of may change. -/
theorem Sound.leads_of_eq (h : s.Sound) (hblds : s'.builds = s.builds)
    (hchunks : s'.chunks = s.chunks) (houts : s'.outputs = s.outputs)
    (hwork : s'.work = s.work) : s.Leads s' := by
  have hfol := Follows.refl s
  apply leads_of_sameBuilds hblds
  · rw [hchunks]
    exact hfol.chunks
  · rw [houts]
    exact hfol.outputs
  · rw [hwork]
    exact hfol.work
  · rw [hchunks]
    exact h.chunks
  · rw [houts]
    exact h.outputs
  · rw [hwork]
    exact h.work

theorem Sound.leads_of_setWork (h : s.Sound) {work' : RetentionWork} {table : Table RetentionWork.id}
    (hset : s.work.Sets table work') (hfind : s.work.find? work'.id = some work)
    (hfol : work.Follows work') (hsound : s.WorkSound work') :
    s.Leads { s with work := table } := by
  have hkept := Follows.refl s
  have hgrows := hset.grows RetentionWork.Follows.refl hfind hfol
  exact leads_of_sameBuilds rfl hkept.chunks hkept.outputs hgrows h.chunks h.outputs
    (hset.forall_mem hsound h.work)

theorem Sound.leads_of_outputs (h : s.Sound) (hgrows : s.outputs.Grows OutputRow.Follows table)
    (hsound : ∀ row ∈ table.rows, s.OutputSound row) : s.Leads { s with outputs := table } := by
  have hkept := Follows.refl s
  exact leads_of_sameBuilds rfl hkept.chunks hgrows hkept.work h.chunks hsound h.work

theorem Sound.leads_of_chunks (h : s.Sound) {table : Table ResultLogRow.chunkId}
    (hgrows : s.chunks.Grows ResultLogRow.Follows table)
    (hsound : ∀ row ∈ table.rows, s.ChunkSound row) : s.Leads { s with chunks := table } := by
  have hkept := Follows.refl s
  exact leads_of_sameBuilds rfl hgrows hkept.outputs hkept.work hsound h.outputs h.work

/-! ## Claims and ends of passes -/

variable {id : RetentionWorkId} {owner : WorkerOwner} {work work' : RetentionWork}

theorem lockWork_sound (h : s.Sound) (hlock : s.lockWork id owner observedAt = .ok work) :
    s.WorkSound work := h.work work (mem_of_find? (lockWork_eq_ok.mp hlock).1)

theorem WorkSound.acquire (h : s.WorkSound work) {claim : WorkClaim}
    (hopen : work.completedAt = none) : s.WorkSound (work.acquire claim) :=
  ⟨h.found, h.open_iff, fun _ => hopen, h.hidden, h.searched, h.assigned⟩

theorem mem_claimPage {request : ClaimRetentionWork} {locked : List RetentionWorkId}
    (h : work ∈ s.claimPage request locked) :
    work ∈ s.work.rows ∧ s.isClaimable request.observedAt work = true := by
  have hfilt := List.mem_filter.mp (List.mem_mergeSort.mp (List.mem_of_mem_take h))
  exact ⟨hfilt.1, (of_decide_eq_true hfilt.2).2⟩

/-- The rows after a claim: those of the page are acquired. -/
theorem claim_work (request : ClaimRetentionWork) (locked : List RetentionWorkId) :
    (s.claim request locked).1.work =
      s.work.updateWhere (fun work => work ∈ s.claimPage request locked)
        (.acquire ⟨request.owner, request.claimExpiresAt⟩)
        (RetentionWork.acquire_id ⟨request.owner, request.claimExpiresAt⟩) := rfl

theorem leads_claim (h : s.Sound) (request : ClaimRetentionWork) (locked : List RetentionWorkId) :
    s.Leads (s.claim request locked).1 := by
  have hkept := Follows.refl s
  have hgrows : s.work.Grows RetentionWork.Follows (s.claim request locked).1.work := by
    rw [claim_work]
    exact .updateWhere RetentionWork.Follows.refl _ fun _ _ _ _ => ⟨rfl, rfl, .refl _⟩
  refine leads_of_sameBuilds rfl hkept.chunks hkept.outputs hgrows h.chunks h.outputs ?_
  rw [claim_work]
  intro row hrow
  obtain ⟨work, hmem, rfl⟩ := mem_updateWhere.mp hrow
  split
  · rename_i hpage
    have hclaimable := (mem_claimPage (of_decide_eq_true hpage)).2
    simp only [isClaimable, decide_eq_true_eq] at hclaimable
    exact (h.work work hmem).acquire hclaimable.1
  · exact h.work work hmem

theorem WorkSound.yield (h : s.WorkSound work) (availableAt : Option Timestamp) :
    s.WorkSound (work.yield availableAt) :=
  ⟨h.found, h.open_iff, fun hclaim => (nomatch hclaim), h.hidden, h.searched, h.assigned⟩

theorem WorkSound.complete (h : s.WorkSound work) (hpend : work.phase ≠ .pending)
    (hopen : work.completedAt = none) : s.WorkSound (work.complete observedAt) where
  found := h.found
  open_iff := ⟨fun hnone => (nomatch hnone), fun hopen => (nomatch hopen)⟩
  unclaimed hclaim := (nomatch hclaim)
  hidden _ _ := by
    refine h.hidden hpend fun hdead => ?_
    rw [h.open_iff, hdead] at hopen
    exact nomatch hopen
  searched hphase := (nomatch hphase)
  assigned hphase := (nomatch hphase)

theorem follows_complete (h : s.WorkSound work) (hopen : work.completedAt = none) :
    work.Follows (work.complete observedAt) := by
  refine ⟨rfl, rfl, .inr ⟨h.open_iff.mp hopen, ?_⟩⟩
  have hphase := h.open_iff.mp hopen
  show work.phase.rank < 3
  cases hwork : work.phase <;> rw [hwork] at hphase
  all_goals first | decide | exact nomatch hphase

theorem leads_finishPass {outcome : RetentionPassOutcome} (h : s.Sound)
    (hfin : s.finishPass id owner observedAt = .ok (s', outcome)) : s.Leads s' := by
  obtain ⟨work, remaining, hlock, -, hframe, hset, -⟩ := finishPass_eq_ok hfin
  obtain ⟨hfind, hopen, -⟩ := lockWork_eq_ok.mp hlock
  have hsound := lockWork_sound h hlock
  rw [← key_of_find? hfind] at hfind
  rw [hframe]
  unfold finished at hset
  split at hset
  · exact h.leads_of_setWork hset hfind ⟨rfl, rfl, .refl _⟩ (hsound.yield none)
  · rename_i hpend
    split at hset
    · exact h.leads_of_setWork hset hfind (follows_complete hsound hopen)
        (hsound.complete hpend hopen)
    · exact h.leads_of_setWork hset hfind ⟨rfl, rfl, .refl _⟩ (hsound.yield _)

theorem WorkSound.recordFailure (h : s.WorkSound work) (hopen : work.completedAt = none)
    (failure : WorkFailure) : s.WorkSound (work.recordFailure failure) := by
  have hphase := h.open_iff.mp hopen
  cases hretry : failure.retryAt with
  | none =>
    have hrow : (work.recordFailure failure).phase = .deadLetter := by
      simp [RetentionWork.recordFailure, hretry]
    have hdone : (work.recordFailure failure).completedAt = some failure.failedAt := by
      simp [RetentionWork.recordFailure, hretry]
    refine ⟨h.found, ?_, fun hclaim => (nomatch hclaim), ?_, ?_, ?_⟩
    · rw [hrow, hdone]
      exact ⟨fun hnone => (nomatch hnone), fun hopen => (nomatch hopen)⟩
    · exact fun _ hdead => absurd hrow hdead
    · exact fun hsearched => (nomatch hrow.symm.trans hsearched)
    · exact fun hhid => (nomatch hrow.symm.trans hhid)
  | some retryAt =>
    have hrow : (work.recordFailure failure).phase = work.phase := by
      simp [RetentionWork.recordFailure, hretry]
    have hdone : (work.recordFailure failure).completedAt = none := by
      simp [RetentionWork.recordFailure, hretry]
    refine ⟨h.found, ?_, fun hclaim => (nomatch hclaim), ?_, ?_, ?_⟩ <;> rw [hrow]
    · exact ⟨fun _ => hphase, fun _ => hdone⟩
    · exact h.hidden
    · exact h.searched
    · exact h.assigned

theorem follows_recordFailure (h : s.WorkSound work) (hopen : work.completedAt = none)
    (failure : WorkFailure) : work.Follows (work.recordFailure failure) := by
  have hphase := h.open_iff.mp hopen
  refine ⟨rfl, rfl, ?_⟩
  cases hretry : failure.retryAt with
  | none =>
    have hrow : (work.recordFailure failure).phase = .deadLetter := by
      simp [RetentionWork.recordFailure, hretry]
    rw [hrow]
    refine .inr ⟨hphase, ?_⟩
    cases hwork : work.phase <;> rw [hwork] at hphase
    all_goals first | decide | exact nomatch hphase
  | some retryAt =>
    refine .inl ?_
    simp [RetentionWork.recordFailure, hretry]

theorem completedAt_of_isClaimedBy (h : s.WorkSound work)
    (hclaimed : work.isClaimedBy owner observedAt = true) : work.completedAt = none := by
  refine h.unclaimed ?_
  unfold RetentionWork.isClaimedBy at hclaimed
  obtain ⟨claim, hclaim, -⟩ := of_decide_eq_true hclaimed
  rw [Option.mem_def.mp hclaim]
  rfl

theorem leads_fail {request : FailRetentionWork} (h : s.Sound) (hfail : s.fail request = .ok s') :
    s.Leads s' := by
  obtain ⟨work, hfind, ⟨hclaimed, hframe, hset⟩ | ⟨-, rfl⟩⟩ := fail_eq_ok hfail
  · have hsound := h.work work (mem_of_find? hfind)
    have hopen := completedAt_of_isClaimedBy hsound hclaimed
    rw [← key_of_find? hfind] at hfind
    rw [hframe]
    exact h.leads_of_setWork hset hfind (follows_recordFailure hsound hopen _)
      (hsound.recordFailure hopen _)
  · exact .refl h

/-! ## Hiding a component -/

theorem follows_hide (row : BuildResultRow) : row.Follows (row.hide component observedAt) := by
  intro other hvis
  exact (of_decide_eq_true hvis).2

theorem hideBuildComponent_grows : s.builds.Grows BuildResultRow.Follows
      (s.hideBuildComponent build component observedAt).builds := by
  exact .updateWhere BuildResultRow.Follows.refl (BuildResultRow.hide_id component observedAt)
    fun _ row _ _ => follows_hide row

/-- Only the hidden component changes what is visible. -/
theorem isVisible_hideBuildComponent {other : BuildId} {c : BuildResultComponent} :
    (s.hideBuildComponent build component observedAt).isVisible other c =
      (if other = build ∧ c = component then false else s.isVisible other c) := by
  unfold isVisible hideBuildComponent
  rw [Table.find?_updateWhere]
  cases hfind : s.builds.find? other with
  | none => split <;> rfl
  | some row =>
    have hid := key_of_find? hfind
    subst hid
    by_cases hbuild : row.id = build
    · by_cases hc : c = component <;> simp [hbuild, hc, BuildResultRow.hide]
    · simp [hbuild]

theorem chunkSound_hide (h : s.ChunkSound row) (hhid : s'.isVisible row.buildId .logs = false)
    (hblds : s.builds.Grows BuildResultRow.Follows s'.builds) :
    s'.ChunkSound (row.hide observedAt) :=
  ⟨contains_of_grows hblds h.found, hhid.symm, fun hvis => (nomatch hvis)⟩

theorem chunkSound_hideChunks (h : s.Sound) (hblds : s.builds.Grows BuildResultRow.Follows s'.builds)
    (hvis : ∀ other, s'.isVisible other .logs =
      (if other = build then false else s.isVisible other .logs)) :
    ∀ row ∈ (s.hideChunks build observedAt).chunks.rows, s'.ChunkSound row := by
  intro row hrow
  unfold hideChunks at hrow
  dsimp only at hrow
  obtain ⟨chunk, hmem, rfl⟩ := mem_updateWhere.mp hrow
  have hsound := h.chunks chunk hmem
  by_cases hbuild : chunk.buildId = build
  · have hhid : s'.isVisible chunk.buildId .logs = false := by
      rw [hvis, if_pos hbuild]
    cases hchunk : chunk.visible with
    | true =>
      simp only [hbuild, and_self, decide_true, if_true]
      exact chunkSound_hide hsound hhid hblds
    | false =>
      simp only [hbuild, and_false, decide_false, Bool.false_eq_true, if_false]
      exact ⟨contains_of_grows hblds hsound.found, hchunk.trans hhid.symm, hsound.kept⟩
  · simp only [hbuild, false_and, decide_false, Bool.false_eq_true, if_false]
    refine hsound.mono hblds ?_
    rw [hvis, if_neg hbuild]

theorem hideChunks_grows :
    s.chunks.Grows ResultLogRow.Follows (s.hideChunks build observedAt).chunks := by
  exact .updateWhere ResultLogRow.Follows.refl (ResultLogRow.hide_chunkId observedAt)
    fun _ _ _ _ => ⟨rfl, rfl, fun _ => rfl, fun hdel => hdel⟩

theorem follows_hidden (hpend : work.phase = .pending)
    (hrow : work' = { work with phase := .hidden, search := work'.search }) :
    work.Follows work' := by
  rw [hrow]
  refine ⟨rfl, rfl, .inr ?_⟩
  rw [hpend]
  exact ⟨rfl, Nat.zero_lt_one⟩

theorem leads_hideComponent (h : s.Sound) (hfind : s.work.find? work.id = some work)
    (hpend : work.phase = .pending)
    (hhide : s.hideComponent ids work observedAt = .ok (s', work')) : s.Leads s' := by
  obtain ⟨hframe, hblds, hchunks, hset, hrow, hsrch⟩ := hideComponent_eq_ok hfind hhide
  have hsound := h.work work (mem_of_find? hfind)
  have hgrows : s.builds.Grows BuildResultRow.Follows s'.builds := by
    rw [hblds]
    exact hideBuildComponent_grows
  have hvis : ∀ other c, s'.isVisible other c =
      (if other = work.buildId ∧ c = work.component then false else s.isVisible other c) := by
    intro other c
    rw [isVisible_congr hblds, isVisible_hideBuildComponent]
  have hopen : work.completedAt = none := by
    rw [hsound.open_iff, hpend]
    rfl
  have hworkfind : s.work.find? work'.id = some work := by
    rw [hrow]
    exact hfind
  have hworkgrows := hset.grows RetentionWork.Follows.refl hworkfind (follows_hidden hpend hrow)
  have houts : s'.outputs = s.outputs := by rw [hframe]
  constructor
  · refine ⟨hgrows, ?_, ?_, hworkgrows⟩
    · rw [hchunks]
      split
      · exact hideChunks_grows
      · exact .refl ResultLogRow.Follows.refl _
    · rw [houts]
      exact .refl OutputRow.Follows.refl _
  · refine ⟨?_, ?_, ?_⟩
    · refine hset.forall_mem ?_ fun row hmem => (h.work row hmem).mono hgrows
      rw [hrow]
      refine ⟨contains_of_grows hgrows hsound.found, ?_, hsound.unclaimed, ?_, ?_, ?_⟩
      · exact ⟨fun _ => rfl, fun _ => hopen⟩
      · intro _ _
        rw [hvis, if_pos ⟨rfl, rfl⟩]
      · exact fun hphase => (nomatch hphase)
      · exact fun _ hlogs => hsrch hlogs
    · rw [hchunks]
      split
      · rename_i hlogs
        refine chunkSound_hideChunks h hgrows fun other => ?_
        rw [hvis, hlogs]
        simp
      · rename_i hother
        refine fun row hmem => (h.chunks row hmem).mono hgrows ?_
        rw [hvis, if_neg]
        exact fun hsame => hother hsame.2.symm
    · rw [houts]
      exact fun row hmem => (h.outputs row hmem).mono hgrows

/-! ## Preparing and settling a pass -/

/-- Withdrawing outputs deletes none of them. -/
theorem leads_of_keeps (h : s.Sound)
    (hevos : s.outputs.Evolves OutputRow.Keeps (fun _ => False) table) :
    s.Leads { s with outputs := table } := by
  apply h.leads_of_outputs
  · intro k row hrow
    obtain ⟨row', hrow', hkeeps⟩ := hevos.grows k row hrow
    exact ⟨row', hrow', hkeeps.follows⟩
  · intro row' hrow'
    obtain ⟨row, hrow, hkeeps⟩ | ⟨-, hnone⟩ := hevos.origin _ row' (mem_iff_find?.mp hrow')
    · have hsound := h.outputs row (mem_of_find? hrow)
      have hcpt := hkeeps.follows.component
      refine ⟨?_, fun hdel => ?_⟩
      · rw [hkeeps.buildId]
        exact hsound.found
      · rw [hkeeps.buildId, hcpt]
        exact hsound.kept (hkeeps.deleted hdel)
    · exact hnone.elim

theorem leads_holds (h : s.Sound) (holds : BuildId → HoldHistory) : s.Leads { s with holds } :=
  h.leads_of_eq rfl rfl rfl rfl

theorem Prepared.leads {request : PrepareRetentionWork} {preparation : RetentionPreparation}
    (hp : Prepared ids s s' request work work' preparation) (h : s.Sound) : s.Leads s' := by
  have hheld := leads_holds h s'.holds
  obtain ⟨hfind, -, -⟩ := lockWork_eq_ok.mp hp.locked
  obtain ⟨hpend, -, t, hhide, hlast⟩ | ⟨-, -, hlast⟩ := hp.hidden
  · have hfound : ({ s with holds := s'.holds } : ResultDb).work.find? work.id = some work := by
      rw [← key_of_find? hfind] at hfind
      exact hfind
    have hhid := leads_hideComponent hheld.sound hfound hpend hhide
    have houts : t.outputs = s.outputs := by
      rw [(hideComponent_eq_ok hfound hhide).1]
    have hevos := hp.outputs
    rw [← houts] at hevos
    rw [hlast]
    exact (hheld.trans hhid).trans (leads_of_keeps hhid.sound hevos)
  · rw [hlast]
    exact hheld.trans (leads_of_keeps hheld.sound hp.outputs)

theorem leads_indexing (h : s.Sound) (indexing : Table LogIndexingWork.id) :
    s.Leads { s with indexing } := h.leads_of_eq rfl rfl rfl rfl

theorem WorkSound.searchDeleted (h : s.WorkSound work) (hphase : work.phase = .hidden)
    (hlogs : work.component = .logs) : s.WorkSound (work.enter .searchDeleted) where
  found := h.found
  open_iff := ⟨fun _ => rfl, fun _ => h.open_iff.mpr (by rw [hphase]; rfl)⟩
  unclaimed := h.unclaimed
  hidden _ _ := h.hidden (by rw [hphase]; decide) (by rw [hphase]; decide)
  searched _ := hlogs
  assigned hhid := (nomatch hhid)

theorem leads_completeSearch (h : s.Sound)
    (hsrch : s.completeSearch id owner observedAt = .ok s') : s.Leads s' := by
  obtain ⟨work, hlock, hlogs, ⟨hphase, searchWork, position, -, rfl⟩ | ⟨-, rfl⟩⟩ :=
    completeSearch_eq_ok hsrch
  · have hsettled := leads_indexing h (s.settleIndexing work searchWork position observedAt).indexing
    have hfind := (lockWork_eq_ok.mp hlock).1
    have hset : s.work.Sets (s.enterPhase id .searchDeleted).work (work.enter .searchDeleted) :=
      sets_enterPhase hfind
    have hfol : work.Follows (work.enter .searchDeleted) := by
      refine ⟨rfl, rfl, .inr ?_⟩
      rw [hphase]
      exact ⟨rfl, Nat.lt_succ_self 1⟩
    rw [← key_of_find? hfind] at hfind
    exact hsettled.trans (hsettled.sound.leads_of_setWork hset hfind hfol
      (((lockWork_sound h hlock).searchDeleted hphase hlogs).mono hsettled.follows.builds))
  · exact .refl h

theorem leads_completeLog {chunk : LogChunkId} (h : s.Sound)
    (hlog : s.completeLog build chunk observedAt = .ok s') : s.Leads s' := by
  obtain ⟨row, hfind, -, ⟨hhid, -, hframe, hset⟩ | ⟨-, rfl⟩⟩ := completeLog_eq_ok hlog
  · have hsound := h.chunks row (mem_of_find? hfind)
    rw [hframe]
    apply h.leads_of_chunks
    · rw [← key_of_find? hfind] at hfind
      exact hset.grows ResultLogRow.Follows.refl hfind ⟨rfl, rfl, fun h => h, fun _ => rfl⟩
    · refine hset.forall_mem ⟨hsound.found, hsound.visible, fun hvis => ?_⟩ h.chunks
      rw [ResultLogRow.delete, hhid] at hvis
      cases hvis
  · exact .refl h

/-- An output of a hidden component may be deleted. -/
theorem leads_completeRetention {artifact : ArtifactId} (h : s.Sound)
    (hobj : ∃ row ∈ s.outputs.rows,
      row.id = artifact ∧ row.buildId = build ∧ row.component = component ∧
        s.isVisible build component = false)
    (hdelete : s.completeRetention artifact observedAt = .ok s') : s.Leads s' := by
  obtain ⟨row, row', hfind, hframe, hset, hid, hbuild, hreport, -⟩ := completeRetention_eq_ok hdelete
  obtain ⟨listed, hlist, hlistedId, hlistedBuild, hlistedComponent, hhid⟩ := hobj
  have hsame : listed = row := by
    refine s.outputs.eq_of_key_eq hlist (mem_of_find? hfind) ?_
    rw [hlistedId, key_of_find? hfind]
  subst hsame
  have hfol : listed.Follows row' := ⟨hbuild, hreport⟩
  rw [hframe]
  apply h.leads_of_outputs
  · refine hset.grows OutputRow.Follows.refl ?_ hfol
    rw [hid]
    exact s.outputs.find?_of_mem hlist
  · refine hset.forall_mem ⟨?_, fun _ => ?_⟩ h.outputs
    · rw [hbuild]
      exact (h.outputs listed hlist).found
    · rw [hbuild, hfol.component, hlistedBuild, hlistedComponent]
      exact hhid

theorem leads_completeObject {object : RetentionObject} (h : s.Sound)
    (hobj : s.IsObjectOf build component object)
    (hcompl : s.completeObject id owner object.identity observedAt = .ok s') : s.Leads s' := by
  obtain ⟨work, -, ⟨chunk, -, -, hlog⟩ | ⟨artifact, hsame, houtput⟩⟩ := completeObject_eq_ok hcompl
  · exact leads_completeLog h hlog
  · cases object with
    | log manifest => cases hsame
    | output upload =>
      cases hsame
      exact leads_completeRetention h hobj houtput

/-! ## The other transactions -/

theorem leads_beginUpload {request : BeginArtifactUpload} (h : s.Sound)
    (hbegin : s.beginUpload request = .ok s') : s.Leads s' := by
  obtain ⟨row, hframe, hins, hstate, hfound⟩ := beginUpload_eq_ok hbegin
  rw [hframe]
  apply h.leads_of_outputs
  · exact .insert? OutputRow.Follows.refl hins
  · refine (sets_insert? hins).forall_mem ⟨hfound, fun hdel => ?_⟩ h.outputs
    rw [hstate] at hdel
    cases hdel

theorem leads_changeVerification {request : VerifyArtifactUpload}
    {result : Option ArtifactVerificationResult} (h : s.Sound)
    (hchange : s.changeVerification request result = .ok s') : s.Leads s' := by
  obtain ⟨row, hrow, -, rfl | ⟨hframe, row', hset, hid, hbuild, hreport, hstate⟩⟩ :=
    changeVerification_eq_ok hchange
  · exact .refl h
  · rw [hframe]
    apply h.leads_of_outputs
    · refine hset.grows OutputRow.Follows.refl ?_ ⟨hbuild, hreport⟩
      rw [hid]
      exact s.outputs.find?_of_mem hrow
    · refine hset.forall_mem ⟨?_, fun hdel => absurd hdel hstate⟩ h.outputs
      rw [hbuild]
      exact (h.outputs row hrow).found

theorem contains_of_isVisible (h : s.isVisible build component = true) :
    s.builds.contains build = true := by
  rw [contains_eq_isSome]
  unfold isVisible at h
  cases hfind : s.builds.find? build with
  | none =>
    rw [hfind] at h
    cases h
  | some row => rfl

theorem leads_persistLogChunks {access : Except ResultError Unit} {origin : LogOrigin}
    {chunks : List LogChunkManifest} (h : s.Sound)
    (hpersist : s.persistLogChunks access origin observedAt chunks = .ok s') : s.Leads s' := by
  obtain ⟨-, rfl⟩ | ⟨hvis, hfold⟩ := persistLogChunks_eq_ok hpersist
  · exact .refl h
  · obtain ⟨hframe, hevos⟩ := foldlM_insertLogChunk_eq_ok hfold
    have hkept := Follows.refl s
    rw [hframe]
    refine leads_of_sameBuilds rfl ?_ hkept.outputs hkept.work ?_ h.outputs h.work
    · intro k row hrow
      obtain ⟨row', hrow', rfl⟩ := hevos.grows k row hrow
      exact ⟨row, hrow', .refl row⟩
    · intro row' hrow'
      obtain ⟨row, hrow, rfl⟩ | ⟨-, hbuild, hrowVisible, hdel⟩ :=
        hevos.origin _ row' (mem_iff_find?.mp hrow')
      · exact h.chunks row (mem_of_find? hrow)
      · -- A chunk is archived only while the logs are visible.
        refine ⟨?_, ?_, fun _ => hdel⟩
        · rw [hbuild]
          exact contains_of_isVisible hvis
        · rw [hbuild, hvis, hrowVisible]

/-- A new Build leaves the components of the others as they are. -/
theorem isVisible_insertBuild (hins : s.insertBuild ids new = .ok s')
    (hfound : s.builds.contains build = true) :
    s'.isVisible build component = s.isVisible build component := by
  obtain ⟨-, ⟨row, hrow, -, -⟩, -⟩ := insertBuild_eq_ok hins
  have hne : build ≠ row.id := by
    rintro rfl
    obtain ⟨other, hother, hsame⟩ := (contains_iff _ _).mp hfound
    exact (Table.insert?_eq_some hrow).1 other hother hsame
  rw [isVisible, (sets_insert? hrow).2 build hne, isVisible]

theorem leads_insertBuild (h : s.Sound) (hins : s.insertBuild ids new = .ok s') :
    s.Leads s' := by
  obtain ⟨hframe, ⟨row, hrow, hid, hvis⟩, hwork⟩ := insertBuild_eq_ok hins
  have hset := sets_insert? hrow
  have hgrows : s.builds.Grows BuildResultRow.Follows s'.builds :=
    .insert? BuildResultRow.Follows.refl hrow
  have hchunks : s'.chunks = s.chunks := by rw [hframe]
  have houts : s'.outputs = s.outputs := by rw [hframe]
  constructor
  · refine ⟨hgrows, ?_, ?_, ?_⟩
    · rw [hchunks]
      exact .refl ResultLogRow.Follows.refl _
    · rw [houts]
      exact .refl OutputRow.Follows.refl _
    · intro k work hfind
      obtain ⟨work', hfind', rfl⟩ := hwork.grows k work hfind
      exact ⟨work, hfind', .refl work⟩
  · refine ⟨?_, ?_, ?_⟩
    · intro work' hmem
      obtain ⟨work, hfind, rfl⟩ | ⟨-, hbuild, hphase, hclaim, hopen, -⟩ :=
        hwork.origin _ work' (mem_iff_find?.mp hmem)
      · exact (h.work work (mem_of_find? hfind)).mono hgrows
      · have hfound : s'.builds.contains new.id = true := by
          rw [contains_eq_isSome, ← hid, hset.1]
          rfl
        refine ⟨hbuild ▸ hfound, ?_, fun _ => hopen, fun hpend => absurd hphase hpend, ?_, ?_⟩
        · rw [hopen, hphase]
          exact ⟨fun _ => rfl, fun _ => rfl⟩
        · exact fun hsearched => (nomatch hphase.symm.trans hsearched)
        · exact fun hhid => (nomatch hphase.symm.trans hhid)
    · rw [hchunks]
      exact fun row hmem => (h.chunks row hmem).mono hgrows
        (isVisible_insertBuild hins (h.chunks row hmem).found)
    · rw [houts]
      exact fun row hmem => (h.outputs row hmem).mono hgrows

end ResultDb

end OctaCity.Retention
