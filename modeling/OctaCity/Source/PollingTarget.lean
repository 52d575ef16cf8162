/-
  OctaCity.Source.PollingTarget

  When a polled target stays claimable: as long as no page of a running pass
  expires, is swept or stops fitting, a pass ends without an error, or after its
  claim is gone.
-/
import OctaCity.Source.PollingRuns
import OctaCity.Source.PollingWorker

namespace OctaCity.Source

open Domain Lib Option PollingProgress
open Retention (DurableRetryPolicy)

variable {digest : PassDigest} {encode : WorkSourceScanTarget → List UInt8}

/-! ## What a run may meet -/

/-- Whether an instant so much later is a supported one. -/
def Reaches (at_ : Timestamp) (millis : Nat) : Prop :=
  at_.unixMillis + millis ≤ maxTimestampMillis

theorem addMillis_of_reaches {at_ : Timestamp} {millis : Nat} (h : Reaches at_ millis) :
    ∃ later, addMillis at_ millis = .ok later := by
  have hlow := at_.supported.1
  have hsupp : minTimestampMillis ≤ at_.unixMillis + millis ∧
      at_.unixMillis + millis ≤ maxTimestampMillis := ⟨by omega, h⟩
  unfold addMillis Timestamp.fromUnixMillis
  rw [dif_pos hsupp]
  exact ⟨_, rfl⟩

instance (at_ : Timestamp) (millis : Nat) : Decidable (Reaches at_ millis) :=
  inferInstanceAs (Decidable (_ ≤ _))

instance (page : SourcePollingPage) : Decidable (LawfulPage page) :=
  decidable_of_iff
    (isValidCursor page.nextCursor = true ∧
      ∀ candidate ∈ page.candidates, candidate.encoded.utf8ByteSize ≤ maxSourceInputBytes)
    ⟨fun h => ⟨h.1, h.2⟩, fun h => ⟨h.cursor, h.candidates⟩⟩

/-- Reads that answer with a page as requested, on a clock that stands within the supported
years with its policy's intervals. -/
def SourceWorker.Succeeds (worker : SourceWorker) : WorkerEvent → Prop
  | .start policy now => epoch ≤ now ∧ Reaches now policy.reconciliationIntervalMillis
  | .loop _ advancedAt => epoch ≤ advancedAt
  | .read page readAt => LawfulPage page ∧ ∀ run ∈ worker.stage.run?,
      page.encodedSize ≤ run.policy.maxPageBytes ∧
        page.candidates.length ≤ run.policy.pageItems ∧
        Reaches readAt run.policy.retentionMillis
  | .cover coveredAt => ∀ run ∈ worker.stage.run?,
      Reaches coveredAt run.policy.reconciliationIntervalMillis
  | _ => True

/-- No candidate of an expired page is settled, a resumed page fits the pass's limits, and no
position is saved under a running claim while an untouched preparation is pending. -/
def SourceWorker.Undisturbed (worker : SourceWorker) : WorkerEvent → Prop
  | .settle expiryAt _ => ∀ run ∈ worker.stage.run?, ∀ page ∈ run.progress.pendingPage,
      (page.candidates ≠ [] → expiryAt < page.expiresAt) ∧
        (run.charged = false → page.encodedPayloadBytes ≤ run.policy.maxPageBytes ∧
          page.encodedPayloadBytes ≤ run.policy.maxBytes)
  | .save savedAt blocking => blocking = true → worker.claim.deadline ≤ savedAt
  | _ => True

/-- The attempts that are spent once this pass has spent one. -/
def SourceWorker.attempts (worker : SourceWorker) : Nat :=
  min (worker.previous.elim 0 (·.attempts) + 1) 65535

def SourceWorker.timedOut (worker : SourceWorker) : Bool :=
  match worker.stage with
  | .ended (some (.sourceDependency .timeout none)) => true
  | _ => false

namespace TargetEvent

/-- Every provider read, settlement and store access of an event succeeds. -/
def Succeeds (σ : PollingTarget) : TargetEvent → Prop
  | .work fence event => ∀ worker ∈ σ.workers fence, worker.Succeeds event
  | .finish _ at_ _ retry => Reaches at_ retry.maximumDelayMilliseconds
  | _ => True

/-- Nothing takes the retained page from a running pass, and a pass that outlived its time leaves
another attempt. -/
def Undisturbed (σ : PollingTarget) : TargetEvent → Prop
  | .work fence event => ∀ worker ∈ σ.workers fence, worker.Undisturbed event
  | .sweep now => ∀ scan ∈ σ.row, isSwept scan now = true →
      ∀ fence, ∀ worker ∈ σ.workers fence,
        worker.claim ≠ scan.claim ∨ worker.claim.deadline ≤ worker.clock
  | .finish fence _ _ retry => ∀ worker ∈ σ.workers fence, worker.timedOut = true →
      worker.attempts < retry.maxAttempts
  | _ => True

end TargetEvent

/-- A run all of whose steps meet a condition on the state before the step. -/
def PollingTarget.Meets (digest : PassDigest) (encode : WorkSourceScanTarget → List UInt8)
    (condition : PollingTarget → TargetEvent → Prop) : PollingTarget → List TargetEvent → Prop
  | _, [] => True
  | σ, event :: rest =>
    condition σ event ∧ Meets digest encode condition (σ.step digest encode event) rest

instance (worker : SourceWorker) : (event : WorkerEvent) → Decidable (worker.Succeeds event)
  | .start _ _ => inferInstanceAs (Decidable (_ ∧ _))
  | .loop _ _ => inferInstanceAs (Decidable (_ ≤ _))
  | .read _ _ => inferInstanceAs (Decidable (_ ∧ _))
  | .cover coveredAt => inferInstanceAs (Decidable (∀ run ∈ worker.stage.run?,
      Reaches coveredAt run.policy.reconciliationIntervalMillis))
  | .drained _ | .settle _ _ | .save _ _ | .next | .cancel | .timeout =>
    inferInstanceAs (Decidable True)

instance (worker : SourceWorker) : (event : WorkerEvent) → Decidable (worker.Undisturbed event)
  | .settle expiryAt _ => inferInstanceAs
      (Decidable (∀ run ∈ worker.stage.run?, ∀ page ∈ run.progress.pendingPage,
        (page.candidates ≠ [] → expiryAt < page.expiresAt) ∧
          (run.charged = false → page.encodedPayloadBytes ≤ run.policy.maxPageBytes ∧
            page.encodedPayloadBytes ≤ run.policy.maxBytes)))
  | .save savedAt blocking => inferInstanceAs
      (Decidable (blocking = true → worker.claim.deadline ≤ savedAt))
  | .start _ _ | .loop _ _ | .read _ _ | .cover _ | .drained _ | .next | .cancel | .timeout =>
    inferInstanceAs (Decidable True)

instance (σ : PollingTarget) : (event : TargetEvent) → Decidable (event.Succeeds σ)
  | .work fence event => inferInstanceAs
      (Decidable (∀ worker ∈ σ.workers fence, worker.Succeeds event))
  | .finish _ at_ _ retry => inferInstanceAs
      (Decidable (Reaches at_ retry.maximumDelayMilliseconds))
  | .claim _ | .crash _ | .sweep _ => inferInstanceAs (Decidable True)

instance PollingTarget.decidableMeets (digest : PassDigest)
    (encode : WorkSourceScanTarget → List UInt8)
    (condition : PollingTarget → TargetEvent → Prop) [∀ σ event, Decidable (condition σ event)] :
    (σ : PollingTarget) → (events : List TargetEvent) →
      Decidable (σ.Meets digest encode condition events)
  | _, [] => isTrue trivial
  | σ, event :: rest =>
    haveI := decidableMeets digest encode condition (σ.step digest encode event) rest
    inferInstanceAs (Decidable (_ ∧ _))

/-- A stored position that a driver can go on from. -/
def RowSound (progress : Option WorkSourceProgress) : Prop :=
  ∀ position : PollingProgress, progress = some position.toProgress →
    ValidProgress position ∧
      (position.reconciliation = true → position.state.otherPass ≠ none)

/-- An invocation that only its lease can stop. -/
structure Steady (run : PollingRun) : Prop where
  valid : ValidRun run
  lanes : run.progress.reconciliation = true → run.progress.state.otherPass ≠ none
  page : run.phase = .settle ∨ run.phase = .settled → run.progress.pendingPage ≠ none
  ready : run.saving = false → run.phase ≠ .settled →
    run.expected = some run.progress.toProgress

theorem rowSound_none : RowSound none := by
  intro position h
  cases h

theorem Steady.rowSound {run : PollingRun} (h : Steady run) :
    RowSound (some run.progress.toProgress) := by
  intro position heq
  cases toProgress_injective (Option.some.inj heq)
  exact ⟨h.valid.progress, h.lanes⟩

/-! ## Steps of an invocation -/

/-- The two ways a step of a steady invocation may go: on, or out of its lease. -/
def StepsOn (lease : SourcePollingLease) (expected : Option WorkSourceProgress)
    (clock : Timestamp) : Except ApplicationError PollingRun → Prop
  | .ok run => Steady run ∧ run.lease = lease ∧ run.expected = expected
  | .error _ => lease.deadline ≤ clock

variable {now clock : Timestamp} {worker : SourceWorker} {row : Option WorkSourceScan}

theorem requireTime_cases {lease : SourcePollingLease} (hacq : lease.acquiredAt ≤ now) :
    requireTime lease now = .ok () ∨
      requireTime lease now = .error sourceConflict ∧ lease.deadline ≤ now := by
  unfold requireTime
  split
  · rename_i hout
    exact .inr ⟨rfl, hout.resolve_left (not_lt.mpr hacq)⟩
  · exact .inl rfl

theorem PollingProgress.Turn.lanes {before after : PollingProgress} (h : Turn now before after)
    (hlanes : before.reconciliation = true → before.state.otherPass ≠ none) :
    after.reconciliation = true → after.state.otherPass ≠ none := by
  intro hafter
  cases h with
  | stayed hcap hother =>
    rw [hother]
    exact hlanes ((congrArg (·.reconciliation) hcap).symm.trans hafter)
  | next _ _ _ _ hact _ => exact absurd (hact.1.symm.trans hafter) Bool.noConfusion
  | resumed _ _ _ hother =>
    rw [hother]
    exact some_ne_none _
  | incremental _ _ _ _ _ _ hother =>
    rw [hother]
    exact some_ne_none _
  | reconcile _ _ _ _ hother =>
    rw [hother]
    exact some_ne_none _

section steps

variable {policy : SourcePollingPolicy} {lease : SourcePollingLease} {now : Timestamp}
  {run : PollingRun}

theorem restart_of_reaches (hreach : Reaches now policy.reconciliationIntervalMillis) :
    ∃ after, PollingProgress.restart digest policy lease now = .ok after := by
  obtain ⟨due, hdue⟩ := addMillis_of_reaches hreach
  exact ⟨_, bind_eq_ok.mpr ⟨due, hdue, rfl⟩⟩

theorem stepsOn_start {progress : Option WorkSourceProgress} (hrow : RowSound progress)
    (hacq : lease.acquiredAt ≤ now) (hnow : epoch ≤ now)
    (hreach : Reaches now policy.reconciliationIntervalMillis) :
    StepsOn lease progress now (PollingRun.start digest policy lease progress now) := by
  obtain ⟨fresh, hrestart⟩ :
      ∃ fresh, PollingProgress.restart digest policy lease now = .ok fresh :=
    restart_of_reaches hreach
  have hfresh := restart_fresh hrestart
  have hlanes : fresh.reconciliation = true → fresh.state.otherPass ≠ none := by
    intro hlane
    rw [hfresh.lane] at hlane
    cases hlane
  have hvalid : ValidProgress fresh := .restart hnow hrestart
  unfold PollingRun.start
  rcases requireTime_cases hacq with htime | ⟨htime, hout⟩
  · rw [htime]
    show StepsOn lease progress now (match progress.bind (·.live) with | _ => _)
    cases hlive : progress.bind (·.live) with
    | none =>
      show StepsOn lease progress now (PollingProgress.restart digest policy lease now >>= _)
      rw [hrestart]
      exact ⟨⟨⟨hvalid, nofun⟩, hlanes, fun h => h.elim nofun nofun,
        Bool.noConfusion⟩, rfl, rfl⟩
    | some position =>
      have hpos : progress = some position.toProgress := by
        obtain ⟨document, heq, hdocument⟩ := bind_eq_some_iff.mp hlive
        rw [heq, live_eq_some.mp hdocument]
      show StepsOn lease progress now (if PollingRun.startsOver progress now then _ else _)
      split
      · show StepsOn lease progress now (PollingProgress.restart digest policy lease now >>= _)
        rw [hrestart]
        exact ⟨⟨⟨hvalid, nofun⟩, hlanes, fun h => h.elim nofun nofun,
          Bool.noConfusion⟩, rfl, rfl⟩
      · obtain ⟨hsound, hother⟩ := hrow position hpos
        exact ⟨⟨⟨hsound, nofun⟩, hother, fun h => h.elim nofun nofun,
          fun _ _ => hpos⟩, rfl, rfl⟩
  · rw [htime]
    exact hout

/-- Without a lane to give way to, a reconciliation cannot be active. -/
theorem advancePhase_ok {progress : PollingProgress}
    (hlanes : progress.reconciliation = true → progress.state.otherPass ≠ none) :
    ∃ advanced, progress.advancePhase digest policy lease now = .ok advanced := by
  unfold PollingProgress.advancePhase
  dsimp only
  split
  · rename_i hlane
    cases hother : progress.state.otherPass with
    | none => exact absurd hother (hlanes hlane.1)
    | some pass =>
      dsimp only
      split
      · split
        · exact ⟨_, rfl⟩
        · exact ⟨_, rfl⟩
      · exact ⟨_, rfl⟩
  · split
    · exact ⟨_, rfl⟩
    · exact ⟨_, rfl⟩

/-- The head of the loop: it ends, or goes on, or the lease is over. -/
def LoopsOn (run : PollingRun) (clock : Timestamp) :
    Except ApplicationError (Option PollingRun) → Prop
  | .ok none => True
  | .ok (some next) => Steady next ∧ next.lease = run.lease ∧ next.expected = run.expected
  | .error _ => run.lease.deadline ≤ clock

section

variable (hrun : Steady run)

include hrun

theorem loopsOn {checkedAt advancedAt : Timestamp}
    (hawait : run.saving = false ∧ run.phase = .loop)
    (hacq : run.lease.acquiredAt ≤ checkedAt) (hnow : epoch ≤ advancedAt) :
    LoopsOn run checkedAt (run.loop digest checkedAt advancedAt) := by
  have hexp : run.expected = some run.progress.toProgress :=
    hrun.ready hawait.1 (by rw [hawait.2]; exact nofun)
  unfold PollingRun.loop
  split
  · trivial
  · rcases requireTime_cases hacq with htime | ⟨htime, hout⟩
    · rw [htime]
      show LoopsOn run checkedAt (if run.progress.pendingPage.isSome then _ else _)
      split
      · rename_i hpage
        refine ⟨⟨⟨hrun.valid.progress, nofun⟩, hrun.lanes, ?_, ?_⟩, rfl, rfl⟩
        · exact fun _ => isSome_iff_ne_none.mp hpage
        · exact fun _ _ => hexp
      · split
        · trivial
        · obtain ⟨advanced, hadv⟩ :
              ∃ advanced,
                run.progress.advancePhase digest run.policy run.lease advancedAt = .ok advanced :=
            advancePhase_ok hrun.lanes
          show LoopsOn run checkedAt (run.progress.advancePhase digest _ _ advancedAt >>= _)
          rw [hadv]
          cases advanced with
          | none => trivial
          | some progress =>
            obtain ⟨hturn, hread⟩ := advancePhase_turns hadv
            have hturned : ValidProgress progress :=
              hrun.valid.progress.turn hnow hturn hread
            refine ⟨⟨⟨hturned, fun _ => hread.finished⟩, hturn.lanes hrun.lanes,
              fun h => h.elim nofun nofun, ?_⟩, rfl, rfl⟩
            intro hsaved _
            simpa using hsaved
    · rw [htime]
      exact hout

theorem stepsOn_accept {page : SourcePollingPage} {readAt : Timestamp} (hphase : run.phase = .read)
    (hlawful : LawfulPage page) (hsize : page.encodedSize ≤ run.policy.maxPageBytes)
    (hitems : page.candidates.length ≤ run.policy.pageItems)
    (hreach : Reaches readAt run.policy.retentionMillis) :
    StepsOn run.lease run.expected clock (run.accept page readAt) := by
  obtain ⟨retention, hretention⟩ := addMillis_of_reaches hreach
  have hvalid : (page.retain retention).isValid = true := retain_isValid hlawful hsize hitems
  unfold PollingRun.accept
  rw [if_neg (not_or.mpr ⟨not_lt.mpr hsize, not_lt.mpr hitems⟩), hretention]
  refine ⟨⟨⟨hrun.valid.progress.withPage (hrun.valid.reading hphase) hvalid,
    nofun⟩, hrun.lanes, ?_, Bool.noConfusion⟩, rfl, rfl⟩
  exact fun _ => some_ne_none _

/-- A page is settled within the claim and the bounds of the policy. -/
theorem stepsOn_settle {expiryAt checkedAt : Timestamp}
    (hawait : run.saving = false ∧ run.phase = .settle)
    (hacq : run.lease.acquiredAt ≤ checkedAt)
    (hpage : ∀ page, run.progress.pendingPage = some page →
      (page.candidates ≠ [] → expiryAt < page.expiresAt) ∧
        (run.charged = false → page.encodedPayloadBytes ≤ run.policy.maxPageBytes ∧
          page.encodedPayloadBytes ≤ run.policy.maxBytes)) :
    StepsOn run.lease run.expected checkedAt ((run.settle expiryAt checkedAt).map (·.1)) := by
  unfold PollingRun.settle
  cases hpend : run.progress.pendingPage with
  | none => exact absurd hpend (hrun.page (.inl hawait.2))
  | some page =>
    obtain ⟨hfresh, hfits⟩ := hpage page hpend
    have hcharged : ∃ charged, run.charge page = .ok charged ∧
        charged.progress = run.progress ∧ charged.expected = run.expected ∧
        charged.saving = run.saving ∧ charged.lease = run.lease := by
      unfold PollingRun.charge
      split
      · exact ⟨run, rfl, rfl, rfl, rfl, rfl⟩
      · rename_i huncharged
        obtain ⟨hpageFits, hbytesFit⟩ := hfits (by simpa using huncharged)
        rw [if_neg (not_or.mpr ⟨not_lt.mpr hpageFits, not_lt.mpr hbytesFit⟩)]
        exact ⟨_, rfl, rfl, rfl, rfl, rfl⟩
    obtain ⟨charged, hchrg, hprog, hexp, hsaving, hlease⟩ := hcharged
    have hidle : charged.saving = false := hsaving.trans hawait.1
    show StepsOn run.lease run.expected checkedAt (Except.map _ (run.charge page >>= _))
    rw [hchrg]
    dsimp only [Bind.bind, Except.bind]
    cases hcands : page.candidates with
    | nil =>
      refine ⟨⟨⟨?_, nofun⟩, ?_, ?_, ?_⟩, hlease, hexp⟩
      · show ValidProgress charged.progress
        rw [hprog]
        exact hrun.valid.progress
      · show charged.progress.reconciliation = true → charged.progress.state.otherPass ≠ none
        rw [hprog]
        exact hrun.lanes
      · intro _
        show charged.progress.pendingPage ≠ none
        rw [hprog, hpend]
        exact some_ne_none _
      · exact fun _ hphase => absurd rfl hphase
    | cons candidate rest =>
      have hlater : expiryAt < page.expiresAt :=
        hfresh (by rw [hcands]; exact List.cons_ne_nil _ _)
      dsimp only
      rw [if_neg (not_le.mpr hlater), hlease]
      rcases requireTime_cases hacq with htime | ⟨htime, hout⟩
      · rw [htime]
        have hunfin := hrun.valid.progress.unfinished hpend
        have hrest := isValid_rest (hrun.valid.progress.page page hpend) hcands
        refine ⟨⟨⟨?_, nofun⟩, ?_, ?_, ?_⟩, rfl, hexp⟩
        · show ValidProgress (charged.progress.withPage _)
          rw [hprog]
          exact hrun.valid.progress.withPage hunfin hrest
        · show charged.progress.reconciliation = true → charged.progress.state.otherPass ≠ none
          rw [hprog]
          exact hrun.lanes
        · exact fun _ => some_ne_none _
        · exact fun _ hphase => absurd rfl hphase
      · rw [htime]
        exact hout

theorem stepsOn_cover {coveredAt : Timestamp} (hawait : run.saving = false ∧ run.phase = .settled)
    (hreach : Reaches coveredAt run.policy.reconciliationIntervalMillis) :
    StepsOn run.lease run.expected clock (run.cover coveredAt) := by
  unfold PollingRun.cover
  cases hpend : run.progress.pendingPage with
  | none => exact absurd hpend (hrun.page (.inr hawait.2))
  | some page =>
    dsimp only
    split
    · have hcov : ∃ after, run.progress.covered run.policy page coveredAt = .ok after := by
        unfold PollingProgress.covered PollingProgress.dueAfter
        split
        · obtain ⟨due, hdue⟩ := addMillis_of_reaches hreach
          exact ⟨_, bind_eq_ok.mpr ⟨due, hdue, rfl⟩⟩
        · exact ⟨_, rfl⟩
      obtain ⟨after, hcov⟩ := hcov
      have hpass := covered_passed hcov
      have hlane : after.reconciliation = run.progress.reconciliation :=
        congrArg (·.reconciliation) hpass.capture
      rw [hcov]
      refine ⟨⟨⟨?_, nofun⟩, ?_,
        fun h => h.elim nofun nofun, Bool.noConfusion⟩,
        rfl, rfl⟩
      · exact hrun.valid.progress.covered (hrun.valid.progress.page page hpend) hpass
      · show after.reconciliation = true → after.state.otherPass ≠ none
        rw [hlane, hpass.other]
        exact hrun.lanes
    · exact ⟨⟨⟨hrun.valid.progress, nofun⟩, hrun.lanes,
        fun h => h.elim nofun nofun, Bool.noConfusion⟩,
        rfl, rfl⟩

theorem steady_next (hawait : run.saving = false ∧ run.phase = .complete) :
    Steady { run with phase := .loop } := by
  refine ⟨⟨hrun.valid.progress, nofun⟩, hrun.lanes,
    fun h => h.elim nofun nofun, fun _ _ => ?_⟩
  exact hrun.ready hawait.1 (by rw [hawait.2]; exact nofun)

theorem steady_saved :
    Steady { run with expected := some run.progress.toProgress, saving := false } :=
  ⟨⟨hrun.valid.progress, hrun.valid.reading⟩, hrun.lanes, hrun.page, fun _ _ => rfl⟩

end

end steps

/-! ## Steps of a pass -/

/-- The ends of a pass that met no error of its own: it is through, cancelled or out of time. -/
def EndsWell (error : Option ApplicationError) : Prop :=
  error = none ∨ error = some (.sourceDependency .cancelled none) ∨
    error = some (.sourceDependency .timeout none)

/-- A pass that holds the position of the row and has met no error but its interruption. -/
inductive StageLive (encode : WorkSourceScanTarget → List UInt8) (claim : WorkSourceScanClaim)
    (progress : Option WorkSourceProgress) : WorkerStage → Prop
  | preparing : StageLive encode claim progress (.preparing progress)
  | polling {run : PollingRun} (hrun : Steady run) (hlease : run.lease = claim.lease encode)
      (hexp : run.expected = progress) : StageLive encode claim progress (.polling run)
  | ended {error : Option ApplicationError} (herror : EndsWell error) :
      StageLive encode claim progress (.ended error)

variable {claim : WorkSourceScanClaim} {progress : Option WorkSourceProgress}

/-- A step leads to a live stage, or beyond the claim. -/
def StageNext (encode : WorkSourceScanTarget → List UInt8) (claim : WorkSourceScanClaim)
    (progress : Option WorkSourceProgress) (clock : Timestamp) (stage : WorkerStage) : Prop :=
  StageLive encode claim progress stage ∨ claim.deadline ≤ clock

theorem StepsOn.stage {result : Except ApplicationError PollingRun}
    (h : StepsOn (claim.lease encode) progress clock result) :
    StageNext encode claim progress clock (.ofResult result) := by
  cases result with
  | ok run => exact .inl (.polling h.1 h.2.1 h.2.2)
  | error error => exact .inr h

/-- The driver's part of a step keeps the pass live or leaves its claim behind. -/
theorem stageNext_poll {run : PollingRun} {event : WorkerEvent}
    (hstage : worker.stage = .polling run) (hrun : Steady run)
    (hlease : run.lease = worker.claim.lease encode) (hexp : run.expected = progress)
    (hacq : worker.claim.acquiredAt ≤ worker.clock)
    (hfol : event.follows worker.clock = true) (hsuccs : worker.Succeeds event)
    (hund : worker.Undisturbed event) :
    StageNext encode worker.claim progress (event.clockAfter worker.clock)
      (pollStep digest run event) := by
  have hstay : StageLive encode worker.claim progress (.polling run) :=
    .polling hrun hlease hexp
  have hleaseAcquired : run.lease.acquiredAt ≤ worker.clock := hlease ▸ hacq
  have hpolls : run ∈ worker.stage.run? := by
    rw [hstage]
    rfl
  cases event with
  | loop checkedAt advancedAt =>
    simp only [pollStep]
    split
    · rename_i hawait
      simp only [WorkerEvent.follows, WorkerEvent.readings, List.isChain_cons_cons,
        decide_eq_true_eq] at hfol
      obtain ⟨hchk, hadvanced, -⟩ := hfol
      have hon : LoopsOn run checkedAt (run.loop digest checkedAt advancedAt) :=
        loopsOn hrun hawait (hleaseAcquired.trans hchk) hsuccs
      cases hloop : run.loop digest checkedAt advancedAt with
      | error error =>
        rw [hloop] at hon
        have hout : worker.claim.deadline ≤ checkedAt := by
          have hdead : run.lease.deadline ≤ checkedAt := hon
          rw [hlease] at hdead
          exact hdead
        exact .inr (hout.trans hadvanced)
      | ok next =>
        rw [hloop] at hon
        cases next with
        | none => exact .inl (.ended (.inl rfl))
        | some next => exact .inl (.polling hon.1 (hon.2.1.trans hlease) (hon.2.2.trans hexp))
    · exact .inl hstay
  | read page readAt =>
    simp only [pollStep]
    split
    · rename_i hawait
      obtain ⟨hlawful, hpage⟩ := hsuccs
      obtain ⟨hsize, hitems, hreach⟩ := hpage run hpolls
      have hon : StepsOn run.lease run.expected readAt (run.accept page readAt) :=
        stepsOn_accept hrun hawait.2 hlawful hsize hitems hreach
      rw [hlease, hexp] at hon
      exact hon.stage
    · exact .inl hstay
  | settle expiryAt checkedAt =>
    simp only [pollStep]
    split
    · rename_i hawait
      simp only [WorkerEvent.follows, WorkerEvent.readings, List.isChain_cons_cons,
        decide_eq_true_eq] at hfol
      obtain ⟨hexpiry, hchk, -⟩ := hfol
      have hon := stepsOn_settle hrun hawait
        (hleaseAcquired.trans (hexpiry.trans hchk))
        fun page hpage => hund run hpolls page hpage
      rw [hlease, hexp] at hon
      exact hon.stage
    · exact .inl hstay
  | cover coveredAt =>
    simp only [pollStep]
    split
    · rename_i hawait
      have hon : StepsOn run.lease run.expected coveredAt (run.cover coveredAt) :=
        stepsOn_cover hrun hawait (hsuccs run hpolls)
      rw [hlease, hexp] at hon
      exact hon.stage
    · exact .inl hstay
  | next =>
    simp only [pollStep]
    split
    · rename_i hawait
      exact .inl (.polling (steady_next hrun hawait) hlease hexp)
    · exact .inl hstay
  | cancel => exact .inl (.ended (.inr (.inl rfl)))
  | timeout => exact .inl (.ended (.inr (.inr rfl)))
  | drained now => exact .inl hstay
  | start policy now => exact .inl hstay
  | save savedAt blocking => exact .inl hstay

/-! ## Claims and rows -/

/-- The row is under a later claim, or the pass has seen its own claim end. -/
def Lost (row : Option WorkSourceScan) (worker : SourceWorker) : Prop :=
  (∃ scan, row = some scan ∧ worker.claim.fence < scan.claim.fence) ∨
    worker.claim.deadline ≤ worker.clock

/-- The pass owns the row and holds its position. -/
def Live (encode : WorkSourceScanTarget → List UInt8) (row : Option WorkSourceScan)
    (worker : SourceWorker) : Prop :=
  ∃ scan, row = some scan ∧ scan.claim = worker.claim ∧
    StageLive encode worker.claim scan.progress worker.stage

theorem lockRow_eq_ok {scan : WorkSourceScan} : lockRow row claim now = .ok scan ↔
      row = some scan ∧ scan.claim = claim ∧ claim.acquiredAt ≤ now ∧ now < claim.deadline := by
  unfold lockRow
  rw [bind_eq_ok]
  constructor
  · rintro ⟨found, hrow, h⟩
    obtain ⟨hlocked, h⟩ := guard_eq_ok.mp h
    cases h
    obtain ⟨hclaim, hafter, hbef⟩ := by simpa only [not_or, not_not, not_lt, not_le] using hlocked
    exact ⟨okOr_eq_ok.mp hrow, hclaim, hafter, hbef⟩
  · rintro ⟨rfl, hclaim, hafter, hbef⟩
    refine ⟨scan, rfl, guard_eq_ok.mpr ⟨?_, rfl⟩⟩
    simp only [not_or, not_not, not_lt, not_le]
    exact ⟨hclaim, hafter, hbef⟩

/-- A lost pass locks nothing any more. -/
theorem Lost.lockRow_ne (h : Lost row worker) (hnow : worker.clock ≤ now) (scan : WorkSourceScan) :
    lockRow row worker.claim now ≠ .ok scan := by
  intro hlock
  obtain ⟨hrow, hclaim, -, hbef⟩ := lockRow_eq_ok.mp hlock
  rcases h with ⟨other, hother, hfence⟩ | hdead
  · cases hrow.symm.trans hother
    rw [hclaim] at hfence
    exact lt_irrefl _ hfence
  · exact absurd (hbef.trans_le (hdead.trans hnow)) (lt_irrefl _)

/-- A change of the row that leaves it under its claim. -/
def SameClaim (row row' : Option WorkSourceScan) : Prop :=
  ∀ scan, row = some scan → ∃ scan', row' = some scan' ∧ scan'.claim.fence = scan.claim.fence

theorem SameClaim.refl (row : Option WorkSourceScan) : SameClaim row row :=
  fun scan h => ⟨scan, h, rfl⟩

theorem Lost.mono {row' : Option WorkSourceScan}
    (h : Lost row worker) (hrow : SameClaim row row') : Lost row' worker := by
  rcases h with ⟨scan, hscan, hfence⟩ | hdead
  · obtain ⟨scan', hscan', hsame⟩ := hrow scan hscan
    exact .inl ⟨scan', hscan', hsame ▸ hfence⟩
  · exact .inr hdead

end OctaCity.Source
