/-
  OctaCity.Source.PollingSchedules

  Runs of a polled target: which of them never stop it for good.
-/
import OctaCity.Source.PollingTarget

namespace OctaCity.Source

open Domain Lib List PollingProgress
open Retention (DurableRetryPolicy)

variable {digest : PassDigest} {encode : WorkSourceScanTarget → List UInt8}

/-! ## One pass -/

/-- A row that a pass under it may go on from, and that a claim may follow. -/
structure RowReady (scan : WorkSourceScan) : Prop where
  progress : RowSound scan.progress
  schedule : ∀ schedule, scan.schedule = some schedule → schedule.exhausted = false

/-- What one step of a pass does to the row and to its own stage. -/
structure PassStep (encode : WorkSourceScanTarget → List UInt8) (row row' : Option WorkSourceScan)
    (claim : WorkSourceScanClaim) (clock : Timestamp) (stage : WorkerStage) : Prop where
  same : SameClaim row row'
  ready : ∀ scan, row' = some scan → RowReady scan
  live : (∃ scan, row' = some scan ∧ scan.claim = claim ∧
    StageLive encode claim scan.progress stage) ∨ claim.deadline ≤ clock

variable {row : Option WorkSourceScan} {worker : SourceWorker} {event : WorkerEvent}

variable {scan : WorkSourceScan} {fence : Nat}

variable {clock at_ now : Timestamp} {interval : Nat} {retry : DurableRetryPolicy}
  {current : Option WorkSourceScan} {request : ClaimWorkSourceScan}

section

variable (hready : ∀ scan, row = some scan → RowReady scan)

include hready

theorem PassStep.idle {stage : WorkerStage} (hrow : row = some scan)
    (hclaim : scan.claim = worker.claim)
    (hstage : StageNext encode worker.claim scan.progress clock stage) :
    PassStep encode row row worker.claim clock stage := by
  refine ⟨.refl row, hready, ?_⟩
  rcases hstage with hlive | hout
  · exact .inl ⟨scan, hrow, hclaim, hlive⟩
  · exact .inr hout

theorem passStep_save {run : PollingRun} {savedAt : Timestamp} {blocking : Bool}
    (hrow : row = some scan) (hclaim : scan.claim = worker.claim) (hrun : Steady run)
    (hlease : run.lease = worker.claim.lease encode) (hexp : run.expected = scan.progress)
    (hacq : worker.claim.acquiredAt ≤ savedAt)
    (hblocking : blocking = true → worker.claim.deadline ≤ savedAt) :
    PassStep encode row (saveStep row worker.claim run savedAt blocking).1 worker.claim savedAt
      (saveStep row worker.claim run savedAt blocking).2 := by
  have hstay : StageLive encode worker.claim scan.progress (.polling run) :=
    .polling hrun hlease hexp
  unfold saveStep
  split
  · cases hsave : checkpointRow row worker.claim savedAt blocking run.expected
      run.progress.toProgress with
    | ok saved =>
      unfold checkpointRow at hsave
      obtain ⟨-, hsave⟩ := guard_eq_ok.mp hsave
      obtain ⟨locked, hlock, hsave⟩ := bind_eq_ok.mp hsave
      obtain ⟨-, hsave⟩ := guard_eq_ok.mp hsave
      cases hsave
      obtain ⟨hlocked, -, -, -⟩ := lockRow_eq_ok.mp hlock
      cases hrow.symm.trans hlocked
      refine ⟨?_, ?_, .inl ⟨_, rfl, hclaim, .polling (steady_saved hrun) hlease rfl⟩⟩
      · intro other hother
        cases hrow.symm.trans hother
        exact ⟨_, rfl, rfl⟩
      · intro other hother
        cases hother
        exact ⟨hrun.rowSound, (hready scan hrow).schedule⟩
    | error error =>
      -- before the claim ends no check can fail
      refine ⟨.refl row, hready, .inr ?_⟩
      by_contra hbef
      have hlock : lockRow row worker.claim savedAt = .ok scan :=
        lockRow_eq_ok.mpr ⟨hrow, hclaim, hacq, not_le.mp hbef⟩
      unfold checkpointRow at hsave
      rw [if_neg (not_not.mpr (isValid_iff.mpr hrun.valid.progress)), hlock] at hsave
      have hpass : (if blocking = true ∨ scan.progress ≠ run.expected then
            Except.error sourceConflict
          else Except.ok { scan with progress := some run.progress.toProgress }) =
            Except.error error := hsave
      rw [if_neg (not_or.mpr ⟨fun h => hbef (hblocking h), not_not.mpr hexp.symm⟩)]
        at hpass
      cases hpass
  · exact .idle hready hrow hclaim (.inl hstay)

/-- A live pass stays live, or sees its claim end. -/
theorem passStep_of_live (hlive : Live encode row worker)
    (hacq : worker.claim.acquiredAt ≤ worker.clock)
    (hfol : event.follows worker.clock = true) (hsuccs : worker.Succeeds event)
    (hund : worker.Undisturbed event) :
    PassStep encode row (worker.stageStep digest encode row event).1 worker.claim
      (event.clockAfter worker.clock) (worker.stageStep digest encode row event).2 := by
  obtain ⟨scan, hrow, hclaim, hstage⟩ := hlive
  generalize hat : worker.stage = stage at hstage
  unfold SourceWorker.stageStep
  rw [hat]
  cases hstage with
  | preparing =>
    have hstay : StageNext encode worker.claim scan.progress (event.clockAfter worker.clock)
        (.preparing scan.progress) := .inl .preparing
    cases event with
    | drained now => exact .idle hready hrow hclaim (.inl (.ended (.inl rfl)))
    | cancel => exact .idle hready hrow hclaim (.inl (.ended (.inr (.inl rfl))))
    | timeout => exact .idle hready hrow hclaim (.inl (.ended (.inr (.inr rfl))))
    | start policy now =>
      obtain ⟨hnow, hreach⟩ := hsuccs
      simp only [WorkerEvent.follows, WorkerEvent.readings, isChain_cons_cons,
        decide_eq_true_eq] at hfol
      have hon : StepsOn (worker.claim.lease encode) scan.progress now
          (PollingRun.start digest policy (worker.claim.lease encode) scan.progress now) :=
        stepsOn_start (hready scan hrow).progress (hacq.trans hfol.1) hnow hreach
      exact .idle hready hrow hclaim hon.stage
    | _ => exact .idle hready hrow hclaim hstay
  | @polling run hrun hlease hexp =>
    have hpoll : StageNext encode worker.claim scan.progress (event.clockAfter worker.clock)
        (pollStep digest run event) :=
      stageNext_poll hat hrun hlease hexp hacq hfol hsuccs hund
    cases event with
    | save savedAt blocking =>
      simp only [WorkerEvent.follows, WorkerEvent.readings, isChain_cons_cons,
        decide_eq_true_eq] at hfol
      exact passStep_save hready hrow hclaim hrun hlease hexp (hacq.trans hfol.1)
        hund
    | _ => exact .idle hready hrow hclaim hpoll
  | ended herror => exact .idle hready hrow hclaim (.inl (.ended herror))

end

/-- A lost pass changes nothing outside itself. -/
theorem stageStep_of_lost (hlost : Lost row worker) (hfol : event.follows worker.clock = true) :
    (worker.stageStep digest encode row event).1 = row := by
  unfold SourceWorker.stageStep
  split
  · rfl
  · rfl
  · rfl
  · rfl
  · rename_i run savedAt blocking _
    simp only [WorkerEvent.follows, WorkerEvent.readings, isChain_cons_cons,
      decide_eq_true_eq] at hfol
    unfold saveStep
    split
    · split
      · rename_i hsave
        unfold checkpointRow at hsave
        obtain ⟨-, hsave⟩ := guard_eq_ok.mp hsave
        obtain ⟨locked, hlock, -⟩ := bind_eq_ok.mp hsave
        exact absurd hlock (hlost.lockRow_ne hfol.1 locked)
      · rfl
    · rfl
  · rfl
  · rfl

/-! ## The target -/

/-- What holds of a target whose passes were never disturbed. -/
structure TargetSound (encode : WorkSourceScanTarget → List UInt8) (σ : PollingTarget) : Prop where
  row : ∀ scan, σ.row = some scan → RowReady scan
  saved : ∀ schedule ∈ σ.saved, schedule.exhausted = false
  keys : ∀ fence worker, σ.workers fence = some worker → worker.claim.fence = fence
  clocks : ∀ fence worker, σ.workers fence = some worker →
    worker.claim.acquiredAt ≤ worker.clock
  held : ∀ fence worker, σ.workers fence = some worker → Lost σ.row worker ∨ Live encode σ.row worker

variable {σ : PollingTarget}

/-- Only one pass is live. -/
theorem TargetSound.lost_of_other (h : TargetSound encode σ) {other : Nat}
    {worker otherWorker : SourceWorker} (hworker : σ.workers fence = some worker)
    (hother : σ.workers other = some otherWorker) (hdiffer : other ≠ fence)
    (hlive : Live encode σ.row worker) : Lost σ.row otherWorker := by
  rcases h.held other otherWorker hother with hlost | ⟨scan, hscan, hclaim, -⟩
  · exact hlost
  · obtain ⟨scan', hscan', hclaim', -⟩ := hlive
    cases hscan.symm.trans hscan'
    have hsame : otherWorker.claim.fence = worker.claim.fence := by rw [← hclaim, hclaim']
    rw [h.keys _ _ hworker, h.keys _ _ hother] at hsame
    exact absurd hsame hdiffer

/-- A pass is replaced or taken away; the others are lost or see the same row. -/
theorem TargetSound.update (h : TargetSound encode σ) {row : Option WorkSourceScan}
    {saved : List WorkSourceSchedule} {worker : Option SourceWorker}
    (hrow : ∀ scan, row = some scan → RowReady scan)
    (hsaved : ∀ schedule ∈ saved, schedule.exhausted = false)
    (hothers : ∀ other otherWorker, other ≠ fence → σ.workers other = some otherWorker →
      Lost row otherWorker ∨ Live encode row otherWorker)
    (hworker : ∀ next ∈ worker, next.claim.fence = fence ∧
      next.claim.acquiredAt ≤ next.clock ∧ (Lost row next ∨ Live encode row next)) :
    TargetSound encode ⟨row, Function.update σ.workers fence worker, saved⟩ := by
  have hcases : ∀ other next, Function.update σ.workers fence worker other = some next →
      other = fence ∧ next ∈ worker ∨ other ≠ fence ∧ σ.workers other = some next := by
    intro other next hmem
    by_cases hsame : other = fence
    · subst hsame
      rw [Function.update_self] at hmem
      exact .inl ⟨rfl, hmem⟩
    · rw [Function.update_of_ne hsame] at hmem
      exact .inr ⟨hsame, hmem⟩
  refine ⟨hrow, hsaved, ?_, ?_, ?_⟩
  · intro other next hmem
    rcases hcases other next hmem with ⟨rfl, hnext⟩ | ⟨-, hold⟩
    · exact (hworker next hnext).1
    · exact h.keys other next hold
  · intro other next hmem
    rcases hcases other next hmem with ⟨rfl, hnext⟩ | ⟨-, hold⟩
    · exact (hworker next hnext).2.1
    · exact h.clocks other next hold
  · intro other next hmem
    rcases hcases other next hmem with ⟨rfl, hnext⟩ | ⟨hdiffer, hold⟩
    · exact (hworker next hnext).2.2
    · exact hothers other next hdiffer hold

/-- A clock does not go back. -/
theorem clock_le_clockAfter (h : event.follows clock = true) : clock ≤ event.clockAfter clock := by
  have hsort : ∀ (readings : List Timestamp) (clock : Timestamp),
      (clock :: readings).IsChain (· ≤ ·) → clock ≤ readings.getLastD clock := by
    intro readings
    induction readings with
    | nil => exact fun _ _ => le_rfl
    | cons first rest ih =>
      intro clock hchain
      rw [isChain_cons_cons] at hchain
      rw [getLastD_cons]
      exact hchain.1.trans (ih first hchain.2)
  exact hsort event.readings clock (of_decide_eq_true h)

theorem TargetSound.work (h : TargetSound encode σ)
    (hsuccs : TargetEvent.Succeeds σ (.work fence event))
    (hund : TargetEvent.Undisturbed σ (.work fence event)) :
    TargetSound encode (σ.work digest encode fence event) := by
  unfold PollingTarget.work
  cases hworker : σ.workers fence with
  | none => exact h
  | some worker =>
    dsimp only
    split
    · rename_i hfol
      have hkey := h.keys fence worker hworker
      have hacq := h.clocks fence worker hworker
      have hclock := clock_le_clockAfter hfol
      rcases h.held fence worker hworker with hlost | hlive
      · have hsame : (worker.stageStep digest encode σ.row event).1 = σ.row :=
          stageStep_of_lost hlost hfol
        refine h.update ?_ h.saved ?_ ?_
        · rw [hsame]
          exact h.row
        · intro other otherWorker _ hother
          rw [hsame]
          exact h.held other otherWorker hother
        · intro next hnext
          cases hnext
          refine ⟨hkey, hacq.trans hclock, .inl ?_⟩
          rw [hsame]
          exact hlost.imp_right fun hdead => hdead.trans hclock
      · have hstep : PassStep encode σ.row (worker.stageStep digest encode σ.row event).1
            worker.claim (event.clockAfter worker.clock)
            (worker.stageStep digest encode σ.row event).2 :=
          passStep_of_live h.row hlive hacq hfol (hsuccs worker hworker)
            (hund worker hworker)
        refine h.update hstep.ready h.saved ?_ ?_
        · intro other otherWorker hdiffer hother
          exact .inl ((h.lost_of_other hworker hother hdiffer hlive).mono hstep.same)
        · intro next hnext
          cases hnext
          refine ⟨hkey, hacq.trans hclock, ?_⟩
          rcases hstep.live with hnext | hout
          · exact .inr hnext
          · exact .inl (.inr hout)
    · exact h

/-! ## Schedules -/

theorem retryAt_isSome {attempt : Nat} (hatt : attempt < retry.maxAttempts)
    (hreach : Reaches at_ retry.maximumDelayMilliseconds) :
    (retry.retryAt attempt at_).isSome = true := by
  have hdelay : retry.delay attempt ≤ retry.maximumDelayMilliseconds := min_le_right _ _
  have hlow := at_.supported.1
  unfold Reaches at hreach
  have hsupp : minTimestampMillis ≤ at_.unixMillis + retry.delay attempt ∧
      at_.unixMillis + retry.delay attempt ≤ maxTimestampMillis := by omega
  unfold DurableRetryPolicy.retryAt Timestamp.fromUnixMillis
  rw [if_neg (not_le.mpr hatt), dif_pos hsupp]
  rfl

/-- A pass without an error, or cancelled, or out of time with an attempt left, asks for another
one. -/
theorem sourceScanSchedule_retries {error : Option ApplicationError}
    {schedule : WorkSourceSchedule} (herror : EndsWell error)
    (hreach : Reaches at_ retry.maximumDelayMilliseconds)
    (htimeout : error = some (.sourceDependency .timeout none) →
      worker.attempts < retry.maxAttempts)
    (h : sourceScanSchedule worker.previous at_ interval retry error = .ok schedule) :
    schedule.exhausted = false := by
  unfold sourceScanSchedule at h
  obtain ⟨-, h⟩ := guard_eq_ok.mp h
  rcases herror with rfl | rfl | rfl
  · obtain ⟨retryAt, -, h⟩ := bind_eq_ok.mp h
    cases h
    rfl
  · obtain ⟨earliest, -, h⟩ := bind_eq_ok.mp h
    obtain ⟨next, hnext, h⟩ := bind_eq_ok.mp h
    cases h
    have hneutral : (addMillis at_ interval).map some = .ok next := hnext
    cases hadd : addMillis at_ interval with
    | error error =>
      rw [hadd] at hneutral
      cases hneutral
    | ok later =>
      rw [hadd] at hneutral
      cases hneutral
      rfl
  · obtain ⟨earliest, hearliest, h⟩ := bind_eq_ok.mp h
    cases hearliest
    obtain ⟨next, hnext, h⟩ := bind_eq_ok.mp h
    cases h
    obtain ⟨retryAt, hretry⟩ := Option.isSome_iff_exists.mp (retryAt_isSome (htimeout rfl) hreach)
    have hspent : (.ok (retryNotBefore retry worker.attempts at_ none) :
        Except ApplicationError (Option Timestamp)) = .ok next := hnext
    unfold retryNotBefore at hspent
    rw [hretry] at hspent
    cases hspent
    rfl

theorem TargetSound.finish (h : TargetSound encode σ)
    (hsuccs : TargetEvent.Succeeds σ (.finish fence at_ interval retry))
    (hund : TargetEvent.Undisturbed σ (.finish fence at_ interval retry)) :
    TargetSound encode (σ.finish fence at_ interval retry) := by
  unfold PollingTarget.finish
  cases hworker : σ.workers fence with
  | none => exact h
  | some worker =>
    dsimp only
    split
    · rename_i error hstage
      split
      · exact h
      · rename_i hclock
        split
        · rename_i scan schedule hres
          obtain ⟨schedule, hschedule, hres⟩ := bind_eq_ok.mp hres
          obtain ⟨finished, hfin, hres⟩ := bind_eq_ok.mp hres
          cases hres
          obtain ⟨locked, hlock, hfin⟩ := bind_eq_ok.mp hfin
          cases hfin
          obtain ⟨hrow, -, -, -⟩ := lockRow_eq_ok.mp hlock
          have hlive : Live encode σ.row worker := by
            rcases h.held fence worker hworker with hlost | hlive
            · exact absurd hlock (hlost.lockRow_ne (not_lt.mp hclock) locked)
            · exact hlive
          have hheld := hlive
          obtain ⟨_, -, -, hended⟩ := hheld
          rw [hstage] at hended
          cases hended with
          | ended herror =>
            have hretries := sourceScanSchedule_retries herror hsuccs (by
              rintro rfl
              exact hund worker hworker (by simp [SourceWorker.timedOut, hstage])) hschedule
            refine h.update ?_ ?_ ?_ ?_
            · intro next hnext
              cases hnext
              refine ⟨(h.row locked hrow).progress, ?_⟩
              intro saved hsaved
              cases hsaved
              exact hretries
            · intro saved hmem
              rcases mem_append.mp hmem with hmem | hmem
              · exact h.saved saved hmem
              · cases mem_singleton.mp hmem
                exact hretries
            · intro other otherWorker hdiffer hother
              refine .inl ((h.lost_of_other hworker hother hdiffer hlive).mono ?_)
              intro before hbef
              cases hrow.symm.trans hbef
              exact ⟨_, rfl, rfl⟩
            · intro next hnext
              cases hnext
        · refine h.update h.row h.saved ?_ ?_
          · intro other otherWorker _ hother
            exact h.held other otherWorker hother
          · intro next hnext
            cases hnext
    · exact h

theorem expireRow_of_not_swept
    (hrow : row = some scan) (h : isSwept scan now = false) : expireRow row now = row := by
  rw [hrow]
  show some (if isSwept scan now then _ else scan) = some scan
  rw [h]
  rfl

theorem TargetSound.sweep (h : TargetSound encode σ)
    (hund : TargetEvent.Undisturbed σ (.sweep now)) :
    TargetSound encode { σ with row := expireRow σ.row now } := by
  cases hrow : σ.row with
  | none =>
    show TargetSound encode { σ with row := none }
    rw [← hrow]
    exact h
  | some scan =>
    cases hswept : isSwept scan now with
    | false =>
      rw [expireRow_of_not_swept rfl hswept, ← hrow]
      exact h
    | true =>
      have hafter : expireRow (some scan) now = some { scan with progress := none } := by
        show some (if isSwept scan now then _ else scan) = _
        rw [hswept]
        rfl
      rw [hafter]
      refine ⟨?_, h.saved, h.keys, h.clocks, ?_⟩
      · intro next hnext
        cases hnext
        exact ⟨rowSound_none, (h.row scan hrow).schedule⟩
      · intro fence worker hworker
        left
        have hlost : Lost σ.row worker := by
          rcases h.held fence worker hworker with hlost | ⟨held, hheld, hclaim, -⟩
          · exact hlost
          · cases hrow.symm.trans hheld
            rcases hund scan hrow hswept fence worker hworker with hdiffer | hout
            · exact absurd hclaim.symm hdiffer
            · exact .inr hout
        refine hlost.mono ?_
        intro before hbef
        cases hrow.symm.trans hbef
        exact ⟨_, rfl, rfl⟩

/-! ## Claims -/

/-- What a claim takes over from the row before it. -/
structure Claims (request : ClaimWorkSourceScan) (current : Option WorkSourceScan)
    (scan : WorkSourceScan) : Prop where
  later : ∀ before, current = some before → before.claim.fence < scan.claim.fence
  acquired : scan.claim.acquiredAt = request.now
  kept : (current.filter fun before => before.claim.target = request.target).elim
    (scan.progress = none ∧ scan.schedule = none)
    fun before => scan.progress = before.progress ∧ scan.schedule = before.schedule

theorem nextFence_later (h : nextFence current = .ok fence) :
    ∀ before, current = some before → before.claim.fence < fence := by
  rintro before rfl
  obtain ⟨-, h⟩ := guard_eq_ok.mp (h : (if _ then _ else _) = _)
  cases h
  exact Nat.lt_succ_self _

theorem nextSourceScan_claims (h : nextSourceScan request current = .ok (some scan)) :
    Claims request current scan := by
  unfold nextSourceScan at h
  dsimp only at h
  obtain ⟨-, h⟩ := guard_eq_ok.mp h
  split at h
  · cases h
  · split at h
    · cases h
    · obtain ⟨fence, hfence, h⟩ := bind_eq_ok.mp h
      cases h
      refine ⟨nextFence_later hfence, rfl, ?_⟩
      cases current.filter fun before => before.claim.target = request.target with
      | none => exact ⟨rfl, rfl⟩
      | some before => exact ⟨rfl, rfl⟩

theorem TargetSound.claim (h : TargetSound encode σ) : TargetSound encode (σ.claim request) := by
  unfold PollingTarget.claim
  split
  · exact h
  · split
    · rename_i scan hnext
      obtain ⟨hlater, hacq, hkept⟩ := nextSourceScan_claims hnext
      have hready : RowReady scan := by
        cases hsame : σ.row.filter fun before => before.claim.target = request.target with
        | none =>
          rw [hsame] at hkept
          obtain ⟨hprog, hschedule⟩ := hkept
          refine ⟨hprog ▸ rowSound_none, ?_⟩
          intro schedule hmem
          rw [hschedule] at hmem
          cases hmem
        | some before =>
          rw [hsame] at hkept
          obtain ⟨hprog, hschedule⟩ := hkept
          have hbef := h.row before (Option.filter_eq_some_iff.mp hsame).1
          exact ⟨hprog ▸ hbef.progress, hschedule ▸ hbef.schedule⟩
      refine h.update ?_ h.saved ?_ ?_
      · intro other hother
        cases hother
        exact hready
      · intro other otherWorker _ hother
        left
        rcases h.held other otherWorker hother with (⟨before, hbef, hfence⟩ | hout) |
          ⟨before, hbef, hclaim, -⟩
        · exact .inl ⟨scan, rfl, hfence.trans (hlater before hbef)⟩
        · exact .inr hout
        · exact .inl ⟨scan, rfl, hclaim ▸ hlater before hbef⟩
      · intro next hnext
        cases hnext
        exact ⟨rfl, hacq.le, .inr ⟨scan, rfl, rfl, .preparing⟩⟩
    · exact h

theorem step_targetSound (h : TargetSound encode σ) (event : TargetEvent)
    (hsuccs : event.Succeeds σ) (hund : event.Undisturbed σ) :
    TargetSound encode (σ.step digest encode event) := by
  cases event with
  | claim request => exact h.claim
  | work fence event => exact h.work hsuccs hund
  | finish fence at_ interval retry => exact h.finish hsuccs hund
  | crash fence =>
    refine h.update h.row h.saved ?_ ?_
    · intro other otherWorker _ hother
      exact h.held other otherWorker hother
    · intro next hnext
      cases hnext
  | sweep now => exact h.sweep hund

/-- Whether a claim of the target succeeds from an instant on. -/
def ClaimableFrom (σ : PollingTarget) (instant : Timestamp) : Prop :=
  ∀ request : ClaimWorkSourceScan, instant ≤ request.now →
    1 ≤ request.deadline.unixMillis - request.now.unixMillis →
    request.deadline.unixMillis - request.now.unixMillis ≤ 300000 →
    (∀ scan, σ.row = some scan → scan.claim.fence + 1 < 2 ^ 64) →
    ∃ scan, nextSourceScan request σ.row = .ok (some scan)

theorem TargetSound.claimable (h : TargetSound encode σ) : ∃ instant, ClaimableFrom σ instant := by
  cases hrow : σ.row with
  | none =>
    refine ⟨epoch, ?_⟩
    intro request _ hshort hlong _
    rw [hrow]
    unfold nextSourceScan
    dsimp only
    rw [if_neg (by omega)]
    exact ⟨_, rfl⟩
  | some scan =>
    have hready := h.row scan hrow
    refine ⟨max scan.claim.deadline (scan.schedule.elim epoch (·.retryAt)), ?_⟩
    intro request hnow hshort hlong hfence
    have hdead : scan.claim.deadline ≤ request.now := (le_max_left _ _).trans hnow
    have hretry : scan.schedule.elim epoch (·.retryAt) ≤ request.now :=
      (le_max_right _ _).trans hnow
    have hwaits : ((((some scan).filter fun before => before.claim.target = request.target).bind
        (·.schedule)).any fun schedule =>
          decide (schedule.exhausted = true ∨ request.now < schedule.retryAt)) = false := by
      cases hsame : (some scan).filter fun before => before.claim.target = request.target with
      | none => rfl
      | some before =>
        cases (Option.filter_eq_some_iff.mp hsame).1
        show (scan.schedule.any _) = false
        cases hschedule : scan.schedule with
        | none => rfl
        | some schedule =>
          rw [hschedule] at hretry
          have hexh := hready.schedule schedule hschedule
          refine decide_eq_false ?_
          rintro (hstopped | hearly)
          · rw [hexh] at hstopped
            cases hstopped
          · exact absurd hretry (not_le.mpr hearly)
    rw [hrow]
    unfold nextSourceScan
    dsimp only
    rw [if_neg (by omega), if_neg]
    · rw [hwaits]
      simp only [nextFence]
      rw [if_neg (by simp), if_neg (not_le.mpr (hfence scan hrow))]
      exact ⟨_, rfl⟩
    · show ¬ decide (request.now < scan.claim.deadline) = true
      rw [decide_eq_true_eq]
      exact not_lt.mpr hdead

/-! ## Runs -/

theorem foldl_targetSound (events : List TargetEvent) (h : TargetSound encode σ)
    (hsuccs : σ.Meets digest encode (fun σ event => event.Succeeds σ) events)
    (hund : σ.Meets digest encode (fun σ event => event.Undisturbed σ) events) :
    TargetSound encode (events.foldl (PollingTarget.step digest encode) σ) := by
  induction events generalizing σ with
  | nil => exact h
  | cons event rest ih =>
    obtain ⟨hsucceedsNow, hsucceedsRest⟩ := hsuccs
    obtain ⟨hundisturbedNow, hundisturbedRest⟩ := hund
    exact ih (step_targetSound h event hsucceedsNow hundisturbedNow) hsucceedsRest
      hundisturbedRest

/-- Where reads, settlements and store calls succeed, no candidate of an expired page is
settled, no page of a running pass is swept, every resumed page fits, no untouched preparation
stands in the way of a save and no pass outlives its time as the last attempt, no schedule stops
the target and every state it reaches is claimable from some instant on. -/
theorem PollingTarget.run_stays_claimable (digest : PassDigest)
    (encode : WorkSourceScanTarget → List UInt8) (events : List TargetEvent)
    (hsuccs : unclaimed.Meets digest encode (fun σ event => event.Succeeds σ) events)
    (hund : unclaimed.Meets digest encode (fun σ event => event.Undisturbed σ) events) :
    (∀ schedule ∈ (run digest encode events).saved, schedule.exhausted = false) ∧
      ∃ instant, ClaimableFrom (run digest encode events) instant := by
  have hinit : TargetSound encode unclaimed :=
    ⟨fun _ h => (nomatch h), fun _ h => (nomatch h), fun _ _ h => (nomatch h),
      fun _ _ h => (nomatch h), fun _ _ h => (nomatch h)⟩
  have hsound : TargetSound encode (run digest encode events) :=
    foldl_targetSound events hinit hsuccs hund
  exact ⟨hsound.saved, hsound.claimable⟩

/-! ## Timings that stop a target -/

def sampleRequest (now deadline : Nat) : ClaimWorkSourceScan :=
  { projectId := 1, target := .input 1 1, owner := ⟨"source.worker"⟩, now := sampleInstant now
    deadline := sampleInstant deadline }

def sampleRetry : DurableRetryPolicy := ⟨3, 10, 100, by decide, by decide, by decide⟩

/-- A pass that retains one page of the two candidates `1` and `2` until instant 501. -/
def retainEvents (deadline : Nat) : List TargetEvent :=
  [.claim (sampleRequest 1 deadline),
    .work 1 (.start samplePolicy (sampleInstant 1)), .work 1 (.save (sampleInstant 1) false),
    .work 1 (.loop (sampleInstant 1) (sampleInstant 1)),
    .work 1 (.read ⟨none, [⟨"1"⟩, ⟨"2"⟩], none⟩ (sampleInstant 1)),
    .work 1 (.save (sampleInstant 1) false)]

/-- The page expires while its pass is settling it. -/
def expiredEvents : List TargetEvent :=
  retainEvents 900 ++
    [.work 1 (.settle (sampleInstant 600) (sampleInstant 600)),
      .finish 1 (sampleInstant 600) 100 sampleRetry]

/-- Another replica sweeps the page before the pass saves what it settled in time. -/
def sweptEvents : List TargetEvent :=
  retainEvents 900 ++
    [.work 1 (.settle (sampleInstant 400) (sampleInstant 400)), .sweep (sampleInstant 600),
      .work 1 (.cover (sampleInstant 600)), .work 1 (.save (sampleInstant 600) false),
      .finish 1 (sampleInstant 600) 100 sampleRetry]

def narrowedPolicy : SourcePollingPolicy :=
  { samplePolicy with maxPageBytes := 20, maxPageBytes_bounded := by decide
                      maxBytes_bounded := by decide }

/-- The process ends and the page is resumed under narrower limits. -/
def narrowedEvents : List TargetEvent :=
  retainEvents 300 ++
    [.crash 1, .claim (sampleRequest 300 900),
      .work 2 (.start narrowedPolicy (sampleInstant 300)),
      .work 2 (.loop (sampleInstant 300) (sampleInstant 300)),
      .work 2 (.settle (sampleInstant 300) (sampleInstant 300)),
      .finish 2 (sampleInstant 300) 100 sampleRetry]

def sampleEncode (_ : WorkSourceScanTarget) : List UInt8 := []

/-- Everything the passes asked for succeeded, and still the saved schedule is exhausted. -/
def StopsTarget (events : List TargetEvent) : Prop :=
  PollingTarget.unclaimed.Meets sampleDigest sampleEncode (fun σ event => event.Succeeds σ)
      events ∧
    ∃ schedule ∈ (PollingTarget.run sampleDigest sampleEncode events).saved,
      schedule.exhausted = true

/-- An untouched preparation is pending when the settled page is saved. -/
def blockedEvents : List TargetEvent :=
  retainEvents 900 ++
    [.work 1 (.settle (sampleInstant 2) (sampleInstant 2)), .work 1 (.cover (sampleInstant 2)),
      .work 1 (.save (sampleInstant 2) true), .finish 1 (sampleInstant 2) 100 sampleRetry]

/-- A pass that reads a page, or takes up the retained one, and outlives its time. -/
def slowEvents (fence claimedAt : Nat) : List TargetEvent :=
  [.claim (sampleRequest claimedAt (claimedAt + 300)),
    .work fence (.start samplePolicy (sampleInstant claimedAt)),
    .work fence (.save (sampleInstant claimedAt) false),
    .work fence (.loop (sampleInstant claimedAt) (sampleInstant claimedAt)),
    .work fence (.read ⟨none, [⟨"1"⟩, ⟨"2"⟩], none⟩ (sampleInstant claimedAt)),
    .work fence (.save (sampleInstant claimedAt) false), .work fence .timeout,
    .finish fence (sampleInstant (claimedAt + 200)) 100 sampleRetry]

theorem page_timing_stops_target :
    StopsTarget expiredEvents ∧ StopsTarget sweptEvents ∧ StopsTarget narrowedEvents ∧
      StopsTarget blockedEvents ∧
      StopsTarget (slowEvents 1 1 ++ slowEvents 2 301 ++ slowEvents 3 601) := by
  unfold StopsTarget
  decide

/-- Two passes outlive their time with an attempt left, and the page is settled in time. -/
def settledEvents : List TargetEvent :=
  slowEvents 1 1 ++
    [.claim (sampleRequest 301 900), .work 2 (.start samplePolicy (sampleInstant 301)),
      .work 2 (.loop (sampleInstant 301) (sampleInstant 301)),
      .work 2 (.settle (sampleInstant 302) (sampleInstant 302)),
      .work 2 (.cover (sampleInstant 302)), .work 2 (.save (sampleInstant 302) false),
      .work 2 .timeout, .finish 2 (sampleInstant 500) 100 sampleRetry]

theorem run_stays_claimable_settled :
    (∀ schedule ∈ (PollingTarget.run sampleDigest sampleEncode settledEvents).saved,
        schedule.exhausted = false) ∧
      ∃ instant, ClaimableFrom (PollingTarget.run sampleDigest sampleEncode settledEvents)
        instant := by
  refine PollingTarget.run_stays_claimable sampleDigest sampleEncode settledEvents ?_ ?_
  · decide
  · refine ⟨trivial, ?_, ?_, ?_, ?_, ?_, ?_, ?_, trivial, ?_, ?_, ?_, ?_, ?_, ?_, ?_, trivial⟩
    all_goals first
      | show ∀ worker ∈ PollingTarget.workers _ _, SourceWorker.Undisturbed worker _
        decide
      | show ∀ worker ∈ PollingTarget.workers _ _, SourceWorker.timedOut worker = true → _
        decide

end OctaCity.Source
