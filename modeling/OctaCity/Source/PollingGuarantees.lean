/-
  OctaCity.Source.PollingGuarantees

  What source polling promises: over any run of a target, with crashes, lost and
  refused saves and resets anywhere, nothing that was retained is skipped.
-/
import OctaCity.Source.PollingRuns

namespace OctaCity.Source

open Domain Lib List PollingProgress

variable {digest : PassDigest} {initial : Option WorkSourceProgress}

/-! ## Guarantees -/

/-- Whether a save goes on in the same pass. -/
def SamePass (before after : PollingProgress) : Prop :=
  after.reconciliation = before.reconciliation ∧ after.windowStart = before.windowStart ∧
    after.windowEnd = before.windowEnd

/-- What holds of the history of a polled target. -/
structure SkipsNothing (log : List PollingEntry) : Prop where
  /-- The windows of finished incremental passes start at the epoch and leave no gap. -/
  first : ∀ window ∈ (finishedWindows log).head?, window.1 = epoch
  gapless : Gapless epoch (finishedWindows log)
  covered : ∀ at_, epoch < at_ → at_ ≤ frontier epoch (finishedWindows log) →
    ∃ window ∈ finishedWindows log, window.1 ≤ at_ ∧ at_ ≤ window.2
  /-- A continuation advances only when a page goes, and to the cursor of that page. -/
  advances : ∀ before after : PollingProgress,
    PollingEntry.committed (some before.toProgress) after ∈ log →
    (PollingEntry.committed (some before.toProgress) after).startsOver = false →
    SamePass before after → after.continuation ≠ before.continuation →
    ∃ page, before.pendingPage = some page ∧ after.pendingPage = none ∧
      after.continuation = page.nextCursor
  /-- A page goes only after each of its candidates was settled since it was retained. -/
  settled : ∀ pre mid post stored (after : PollingProgress) stored'
    (after' : PollingProgress) page,
    log = pre ++ .committed stored after :: mid ++ .committed stored' after' :: post →
    after.pendingPage = some page → after'.pendingPage = none →
    (∀ entry ∈ mid ++ [.committed stored' after'], entry.startsOver = false) →
    ∀ candidate ∈ page.candidates, PollingEntry.settled candidate ∈ mid
  /-- A lane that was suspended unfinished goes on with the same pass and continuation. -/
  resumed : ∀ pre mid post (before after : PollingProgress) stored' after',
    log = pre ++ .committed (some before.toProgress) after :: mid ++
      .committed stored' after' :: post →
    after.reconciliation ≠ before.reconciliation → before.state.finished = false →
    (∀ entry ∈ PollingEntry.committed (some before.toProgress) after :: mid ++
      [.committed stored' after'], entry.startsOver = false) →
    (∀ expected next, PollingEntry.committed expected next ∈ mid →
      next.reconciliation ≠ before.reconciliation) →
    after'.reconciliation = before.reconciliation → after'.capture = before.capture

/-- An entry of a written history follows from those before it. -/
theorem Written.follows {pre post : List PollingEntry} {entry : PollingEntry}
    (h : Written digest initial (pre ++ entry :: post)) :
    entry.Follows digest pre.getLast? (replay initial pre) := by
  have hearl : Written digest initial ((pre ++ [entry]) ++ post) := by
    rw [append_assoc, singleton_append]
    exact h
  exact hearl.earlier.last.2

/-- Only covering a page moves a pass on. -/
theorem Commit.advances {last : Option PollingEntry} {before after : PollingProgress}
    (h : Commit digest last (some before.toProgress) after)
    (hlanes : ∀ other ∈ before.state.otherPass, other.reconciliation ≠ before.reconciliation)
    (hover : (PollingEntry.committed (some before.toProgress) after).startsOver = false)
    (hsame : SamePass before after) (hcont : after.continuation ≠ before.continuation) :
    ∃ page, before.pendingPage = some page ∧ after.pendingPage = none ∧
      after.continuation = page.nextCursor := by
  obtain ⟨hlane, -, hend⟩ := hsame
  generalize hexp : some before.toProgress = expected at h
  cases h with
  | restarted hstart hrestart =>
    subst hexp
    obtain ⟨page, hpage, -⟩ := PollingRun.startsOver_live.mp hstart
    rw [startsOver_of_page hpage (restart_fresh hrestart)] at hover
    cases hover
  | turned hpage hadv =>
    cases toProgress_injective (Option.some.inj hexp)
    exfalso
    cases (advancePhase_turns hadv).1 with
    | stayed hcap => exact hcont (congrArg (·.continuation) hcap)
    | next _ _ hafter hwin => exact hafter.ne (hend.symm.trans hwin.2)
    | resumed hpass _ hcap =>
      exact hlanes _ hpass ((congrArg (·.reconciliation) hcap).symm.trans hlane)
    | incremental hbef _ _ _ _ hact =>
      exact absurd (hact.1.symm.trans (hlane.trans hbef)) Bool.noConfusion
    | reconcile hbef _ _ hact =>
      exact absurd (hact.1.symm.trans (hlane.trans hbef)) Bool.noConfusion
  | retained =>
    cases toProgress_injective (Option.some.inj hexp)
    exact absurd rfl hcont
  | settled =>
    cases toProgress_injective (Option.some.inj hexp)
    exact absurd rfl hcont
  | covered hpage _ hcov =>
    cases toProgress_injective (Option.some.inj hexp)
    have hpassed := covered_passed hcov
    exact ⟨_, hpage, hpassed.page, congrArg (·.continuation) hpassed.capture⟩

theorem Written.skips_nothing {log : List PollingEntry} (hinit : initial.bind (·.live) = none)
    (h : Written digest initial log) : SkipsNothing log := by
  obtain ⟨hwins, -⟩ := h.covers hinit
  refine ⟨hwins.head, hwins.gapless, ?_, ?_, ?_, ?_⟩
  · intro at_ hlow hhigh
    exact (hwins.gapless.covers hlow.le hhigh).resolve_left hlow.ne'
  · intro before after hmem hover hsame hcont
    obtain ⟨pre, post, rfl⟩ := append_of_mem hmem
    obtain ⟨hstor, -, hcmt⟩ := h.follows
    obtain ⟨-, hjoins⟩ := (Written.earlier h).covers hinit
    exact hcmt.advances (hjoins before hstor.symm).lanes hover hsame hcont
  · rintro pre mid post stored after stored' after' page rfl hpage hnone hover
    have hearl : Written digest initial
        (pre ++ .committed stored after :: (mid ++ [.committed stored' after'])) := by
      rw [append_cons_append_singleton]
      refine @Written.earlier _ _ _ post ?_
      rw [append_assoc, singleton_append]
      exact h
    have hkept := hearl.keeps_page hpage hover
    rw [append_cons_append_singleton, replay_append_singleton] at hkept
    rcases hkept with ⟨progress, rest, done, hstor, hrest, -⟩ | hall
    · cases toProgress_injective (Option.some.inj hstor)
      rw [hnone] at hrest
      cases hrest
    · intro candidate hmem
      rcases mem_append.mp (hall candidate hmem) with hmem | hmem
      · exact hmem
      · cases mem_singleton.mp hmem
  · rintro pre mid post before after stored' after' rfl hswitch hunfin hover hlane hback
    have hlast : Written digest initial
        ((pre ++ .committed (some before.toProgress) after :: mid) ++
          [.committed stored' after']) := by
      refine @Written.earlier _ _ _ post ?_
      rw [append_assoc _ _ post, singleton_append]
      exact h
    obtain ⟨hearl, hfol⟩ := hlast.last
    obtain ⟨rfl, -, hcmt⟩ := hfol
    have hwaits := hearl.keeps_suspended hswitch hunfin
      (fun entry hmem => hover entry (mem_append_left _ hmem)) hlane
    rcases hwaits.commit hunfin hcmt
      (hover _ (mem_append_right _ (mem_singleton_self _))) with hstill | hresumed
    · obtain ⟨progress, hstor, -, hdiffer⟩ := hstill
      cases toProgress_injective (Option.some.inj hstor)
      exact absurd hback hdiffer
    · exact hresumed

/-- Over every run from a target without a position, polling skips nothing that was retained,
every invocation stays within its budgets, and where clocks are past the epoch and pages within
the store's bounds every position to be saved is valid. -/
theorem PollingSystem.runAll_skips_nothing (digest : PassDigest)
    (stored : Option WorkSourceProgress) (hstor : stored.bind (·.live) = none)
    (events : List PollingEvent) : SkipsNothing (runAll digest stored events).log ∧
      (∀ run ∈ (runAll digest stored events).run, run.outcome.pagesRead ≤ run.policy.maxPages ∧
          run.outcome.itemsProcessed ≤ run.policy.maxItems ∧
          run.outcome.bytesExamined ≤ run.policy.maxBytes) ∧
      ReportsBudgets (runAll digest stored events).log ∧
      ((∀ event ∈ events, event.Lawful) → ∀ run ∈ (runAll digest stored events).run,
        run.saving = true → run.progress.toProgress.isValid = true) := by
  have hsound : PollingSound digest stored (runAll digest stored events) :=
    runAll_sound stored events
  have hidle : ∀ (P : PollingRun → Prop), ∀ run ∈ (none : Option PollingRun), P run := by
    intro P run hmem
    cases hmem
  obtain ⟨hbud, hreports⟩ := @foldl_budgets digest ⟨stored, none, []⟩ events
    (hidle _) (fun policy outcome hmem => by cases hmem)
  refine ⟨hsound.written.skips_nothing hstor, ?_, hreports, ?_⟩
  · intro run hmem
    exact ⟨(hbud run hmem).pages, (hbud run hmem).items, (hbud run hmem).bytes⟩
  · intro hlawful run hmem _
    have hlegacy : ResumesValid stored := by
      intro progress heq
      rw [heq] at hstor
      cases hstor
    exact isValid_iff.mpr
      (@foldl_valid digest ⟨stored, none, []⟩ events hlawful hlegacy (hidle _) run hmem).progress

/-! ## What a read alone does not promise -/

/-- The candidates that were read, each with the identity of its pass. -/
def readCandidates (log : List PollingEntry) : List (Factory.FactoryDigest × JsonValue) :=
  log.flatMap fun
    | .read request page => page.candidates.map fun candidate => (request.scanId, candidate)
    | _ => []

/-- The identities of the finished passes. -/
def finishedScans (log : List PollingEntry) : List Factory.FactoryDigest :=
  log.filterMap fun
    | .committed before after =>
      if (before.bind (·.pendingPage)).isSome ∧ after.pendingPage = none ∧ after.state.finished then
        some after.state.scanId
      else none
    | _ => none

def settledCandidates (log : List PollingEntry) : List JsonValue :=
  log.filterMap fun
    | .settled candidate => some candidate
    | _ => none

def sampleLease : SourcePollingLease := ⟨1, [], sampleInstant 0, sampleInstant 900⟩

/-- The page of the first read is lost in a crash; the second read returns another one. -/
def rereadEvents : List PollingEvent :=
  [.start samplePolicy sampleLease (sampleInstant 1), .save .saved,
    .loop (sampleInstant 1) (sampleInstant 1),
    .read ⟨none, [⟨"1"⟩], none⟩ (sampleInstant 1), .fail,
    .start samplePolicy sampleLease (sampleInstant 2),
    .loop (sampleInstant 2) (sampleInstant 2),
    .read ⟨none, [⟨"2"⟩], none⟩ (sampleInstant 2), .save .saved,
    .settle (sampleInstant 2) (sampleInstant 2), .cover (sampleInstant 2), .save .saved]

/-- A provider returns an empty cursor. -/
def emptyCursorEvents : List PollingEvent :=
  [.start samplePolicy sampleLease (sampleInstant 1), .save .saved,
    .loop (sampleInstant 1) (sampleInstant 1),
    .read ⟨none, [], some ""⟩ (sampleInstant 1)]

/-- A candidate that was read but not retained may never be settled, and a driver may try to
save a position that the store does not accept. -/
theorem unretained_reads_are_not_covered : (¬ ∀ (digest : PassDigest) (events : List PollingEvent),
      ∀ read ∈ readCandidates (PollingSystem.runAll digest none events).log,
        read.1 ∈ finishedScans (PollingSystem.runAll digest none events).log →
          read.2 ∈ settledCandidates (PollingSystem.runAll digest none events).log) ∧
    ¬ ∀ (digest : PassDigest) (events : List PollingEvent),
      ∀ run ∈ (PollingSystem.runAll digest none events).run,
        run.saving = true → run.progress.toProgress.isValid = true := by
  constructor
  · intro h
    have hread := h sampleDigest rereadEvents
    revert hread
    decide
  · intro h
    have hvalid : (PollingSystem.runAll sampleDigest none emptyCursorEvents).run.all
        (fun run => !run.saving || run.progress.toProgress.isValid) = true := by
      rw [Option.all_eq_true]
      intro run hmem
      have hrun := h sampleDigest emptyCursorEvents run hmem
      cases hsaving : run.saving with
      | false => rfl
      | true => exact hrun hsaving
    revert hvalid
    decide

/-- A page of one candidate is read, kept and settled. -/
def pageEvents (n : Nat) (next : Option String) : List PollingEvent :=
  [.read ⟨none, [⟨"1"⟩], next⟩ (sampleInstant n), .save .saved,
    .settle (sampleInstant n) (sampleInstant n), .cover (sampleInstant n), .save .saved,
    .complete false]

/-- A reconciliation is due behind the first of two pages. -/
def suspendedEvents : List PollingEvent :=
  let policy :=
    { samplePolicy with reconciliationIntervalMillis := 10, interval_bounded := by decide }
  .start policy sampleLease (sampleInstant 1) :: .save .saved ::
    .loop (sampleInstant 1) (sampleInstant 1) :: pageEvents 1 (some "next") ++
      .loop (sampleInstant 20) (sampleInstant 20) :: .save .saved :: pageEvents 20 none ++
        .loop (sampleInstant 21) (sampleInstant 21) :: .save .saved :: pageEvents 21 none

/-- The suspended lane is read on from its continuation, and its window is finished. -/
theorem runAll_skips_nothing_resumed :
    let log := (PollingSystem.runAll sampleDigest none suspendedEvents).log
    SkipsNothing log ∧ finishedWindows log = [(epoch, sampleInstant 1)] ∧
      (log.filterMap fun
        | .read request _ => some (request.window.isNone, request.continuation)
        | _ => none) = [(false, none), (true, none), (false, some "next")] :=
  ⟨(PollingSystem.runAll_skips_nothing sampleDigest none rfl suspendedEvents).1, by decide,
    by decide⟩

end OctaCity.Source
