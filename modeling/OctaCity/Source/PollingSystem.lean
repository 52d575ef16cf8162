/-
  OctaCity.Source.PollingSystem

  A polled target: the stored position, at most one running invocation, and the
  history of both.  An invocation may end at any await, with a crash or an error;
  a save may be lost on its way back; the position may be reset at any time.
-/
import OctaCity.Source.PollingCoverage

namespace OctaCity.Source

open Domain Lib Option PollingProgress

/-! ## Steps -/

structure PollingSystem where
  stored : Option WorkSourceProgress
  run : Option PollingRun
  log : List PollingEntry

/-- How a checkpoint ends. -/
inductive SaveOutcome
  | saved
  /-- Stored, but the invocation does not learn of it. -/
  | lost
  | refused
  deriving DecidableEq

inductive PollingEvent
  /-- `run_once` begins with what is stored. -/
  | start (policy : SourcePollingPolicy) (lease : SourcePollingLease) (now : Timestamp)
  | loop (checkedAt advancedAt : Timestamp)
  | read (page : SourcePollingPage) (readAt : Timestamp)
  | settle (expiryAt checkedAt : Timestamp)
  | cover (coveredAt : Timestamp)
  | save (outcome : SaveOutcome)
  | complete (done : Bool)
  /-- A crash, a failed clock, read or settlement, or an abandoned invocation. -/
  | fail
  /-- `expire_source_poll_pages`, or a replaced definition. -/
  | reset

/-- Whether the invocation stands at an await of the given phase. -/
def PollingRun.awaits (run : PollingRun) (phase : PollingPhase) : Bool :=
  run.saving = false ∧ run.phase = phase

namespace PollingSystem

variable (digest : PassDigest) (σ : PollingSystem)

/-- The invocation goes on, or ends with an error. -/
def proceed (result : Except ApplicationError PollingRun) : PollingSystem :=
  { σ with run := result.toOption }

/-- The invocation ends without an error. -/
def finish (run : PollingRun) : PollingSystem :=
  { σ with run := none, log := σ.log ++ [.returned run.policy run.outcome] }

/-- `save`: the checkpoint needs the expected position and a valid one. -/
def save (run : PollingRun) (outcome : SaveOutcome) : PollingSystem :=
  if outcome ≠ .refused ∧ σ.stored = run.expected ∧ run.progress.toProgress.isValid then
    { stored := some run.progress.toProgress
      run :=
        if outcome = .saved then
          some { run with expected := some run.progress.toProgress, saving := false }
        else none
      log := σ.log ++ [.committed run.expected run.progress] }
  else { σ with run := none }

/-- One step of the running invocation. -/
def advance (run : PollingRun) : PollingEvent → PollingSystem
  | .loop checkedAt advancedAt =>
    if run.awaits .loop then
      match run.loop digest checkedAt advancedAt with
      | .ok none => σ.finish run
      | .ok (some run) => { σ with run := some run }
      | .error _ => { σ with run := none }
    else σ
  | .read page readAt =>
    if run.awaits .read then
      let σ := { σ with log := σ.log ++ [PollingEntry.read run.request page] }
      σ.proceed (run.accept page readAt)
    else σ
  | .settle expiryAt checkedAt =>
    if run.awaits .settle then
      match run.settle expiryAt checkedAt with
      | .ok (run, candidate) =>
        { σ with
          run := some run
          log := σ.log ++ (candidate.map PollingEntry.settled).toList }
      | .error _ => { σ with run := none }
    else σ
  | .cover coveredAt => if run.awaits .settled then σ.proceed (run.cover coveredAt) else σ
  | .save outcome => if run.saving then σ.save run outcome else σ
  | .complete done =>
    if run.awaits .complete then
      if done then σ.finish run else { σ with run := some { run with phase := .loop } }
    else σ
  | _ => σ

def step (event : PollingEvent) : PollingSystem :=
  match event with
  | .start policy lease now => σ.proceed (PollingRun.start digest policy lease σ.stored now)
  | .fail => { σ with run := none }
  | .reset => { σ with stored := none, log := σ.log ++ [.reset] }
  | event => σ.run.elim σ fun run => σ.advance digest run event

/-- A run of the system on a target without a running invocation. -/
def runAll (stored : Option WorkSourceProgress) (events : List PollingEvent) : PollingSystem :=
  events.foldl (step digest) ⟨stored, none, []⟩

end PollingSystem

/-! ## Soundness -/

variable {digest : PassDigest}

/-- What the local variables of an invocation mean, next to what is stored. -/
structure RunSound (digest : PassDigest) (stored : Option WorkSourceProgress)
    (log : List PollingEntry) (run : PollingRun) : Prop where
  /-- Outside an iteration's tail the position is the expected one. -/
  ready : run.saving = false → run.phase ≠ .settled →
    run.expected = some run.progress.toProgress
  /-- A save that the store would take is one of the five, also after a reset. -/
  commit : run.saving = true → stored = run.expected ∨ run.expected = none →
    Commit digest log.getLast? run.expected run.progress
  read : run.phase = .read →
    run.progress.pendingPage = none ∧ run.progress.state.finished = false
  /-- After a settlement the position is one candidate ahead. -/
  settled : run.phase = .settled →
    run.saving = false ∧
      ∃ (before : PollingProgress) (page : WorkSourcePendingPage),
        run.expected = some before.toProgress ∧ before.pendingPage = some page ∧
          (page.candidates = [] ∧ run.progress = before ∨
            ∃ candidate rest, page.candidates = candidate :: rest ∧
              run.progress = before.withPage (some { page with candidates := rest }) ∧
                (stored = run.expected → log.getLast? = some (.settled candidate)))

/-- What holds of a system after every run. -/
structure PollingSound (digest : PassDigest) (initial : Option WorkSourceProgress)
    (σ : PollingSystem) : Prop where
  written : Written digest initial σ.log
  stored : replay initial σ.log = σ.stored
  run : ∀ run ∈ σ.run, RunSound digest σ.stored σ.log run

variable {initial : Option WorkSourceProgress} {σ : PollingSystem} {run : PollingRun}

/-- A position without a polling state is followed by a restart only. -/
theorem Commit.of_none {last last' : Option PollingEntry} {after : PollingProgress}
    (h : Commit digest last none after) : Commit digest last' none after := by
  cases h with
  | restarted hover hrestart => exact .restarted hover hrestart

/-- An entry that stores nothing. -/
theorem Written.note {log : List PollingEntry} {entry : PollingEntry}
    (h : Written digest initial log)
    (hentry : ∀ expected after, entry ≠ .committed expected after) :
    Written digest initial (log ++ [entry]) := by
  refine .snoc h ?_
  cases entry with
  | committed expected after => exact absurd rfl (hentry expected after)
  | _ => trivial

namespace PollingSound

section

variable (h : PollingSound digest initial σ)

include h

theorem idle : PollingSound digest initial { σ with run := none } :=
  ⟨h.written, h.stored, fun run hmem => by cases hmem⟩

/-- The invocation changed its own variables only. -/
theorem goes (hrun : RunSound digest σ.stored σ.log run) :
    PollingSound digest initial { σ with run := some run } := by
  refine ⟨h.written, h.stored, ?_⟩
  intro run' hmem
  cases hmem
  exact hrun

/-- An entry that stores nothing is added. -/
theorem note {entry : PollingEntry} (hentry : ∀ expected after, entry ≠ .committed expected after)
    (hstor : ∀ stored, entry.stored stored = stored) (run : Option PollingRun)
    (hrun : ∀ run' ∈ run, RunSound digest σ.stored (σ.log ++ [entry]) run') :
    PollingSound digest initial { σ with run, log := σ.log ++ [entry] } := by
  refine ⟨h.written.note hentry, ?_, hrun⟩
  show replay initial (σ.log ++ [entry]) = σ.stored
  rw [replay_append_singleton, hstor, h.stored]

theorem finish : PollingSound digest initial (σ.finish run) :=
  h.note (fun _ _ => PollingEntry.noConfusion) (fun _ => rfl) none fun run hmem => by cases hmem

theorem start {policy : SourcePollingPolicy} {lease : SourcePollingLease} {now : Timestamp}
    (hstart : PollingRun.start digest policy lease σ.stored now = .ok run) :
    PollingSound digest initial { σ with run := some run } := by
  unfold PollingRun.start at hstart
  obtain ⟨-, hstart⟩ := check_eq_ok.mp hstart
  have hrestarted : ∀ progress, PollingRun.startsOver σ.stored now = true →
      PollingProgress.restart digest policy lease now = .ok progress →
      RunSound digest σ.stored σ.log
        { policy, lease, expected := σ.stored, progress, outcome := ⟨0, 0, 0⟩, charged := false
          saving := true, phase := .loop } := by
    intro progress hover hrestart
    exact ⟨Bool.noConfusion, fun _ _ => .restarted hover hrestart, nofun,
      nofun⟩
  split at hstart
  · rename_i hnone
    obtain ⟨progress, hrestart, hstart⟩ := bind_eq_ok.mp hstart
    cases hstart
    have hover : PollingRun.startsOver σ.stored now = true := by
      unfold PollingRun.startsOver
      rw [hnone]
    exact h.goes (hrestarted progress hover hrestart)
  · rename_i progress hlive
    split at hstart
    · rename_i hover
      obtain ⟨progress, hrestart, hstart⟩ := bind_eq_ok.mp hstart
      cases hstart
      exact h.goes (hrestarted progress hover hrestart)
    · cases hstart
      obtain ⟨document, hstor, hdocument⟩ := bind_eq_some_iff.mp hlive
      have hexp : σ.stored = some progress.toProgress := by
        rw [hstor, live_eq_some.mp hdocument]
      exact h.goes ⟨fun _ _ => hexp, Bool.noConfusion, nofun,
        nofun⟩

end

/-- What an invocation at an await other than a settlement's holds. -/
theorem expected_of_awaits {phase : PollingPhase} (hrun : RunSound digest σ.stored σ.log run)
    (hawait : run.awaits phase = true) (hphase : phase ≠ .settled) :
    run.expected = some run.progress.toProgress := by
  obtain ⟨hsaving, hat⟩ := of_decide_eq_true hawait
  exact hrun.ready hsaving (hat ▸ hphase)

variable {next : PollingRun}

section

variable (h : PollingSound digest initial σ) (hrun : RunSound digest σ.stored σ.log run)

include h hrun

theorem loop {checkedAt advancedAt : Timestamp} (hawait : run.awaits .loop = true)
    (hloop : run.loop digest checkedAt advancedAt = .ok (some next)) :
    PollingSound digest initial { σ with run := some next } := by
  have hexp := expected_of_awaits hrun hawait nofun
  obtain ⟨hsaving, -⟩ := of_decide_eq_true hawait
  unfold PollingRun.loop at hloop
  split at hloop
  · cases hloop
  · obtain ⟨-, hloop⟩ := check_eq_ok.mp hloop
    split at hloop
    · cases hloop
      refine h.goes ⟨fun _ _ => hexp, ?_, nofun,
        nofun⟩
      intro htrue
      exact absurd (hsaving.symm.trans htrue) Bool.noConfusion
    · rename_i hpage
      split at hloop
      · cases hloop
      · obtain ⟨advanced, hadv, hloop⟩ := bind_eq_ok.mp hloop
        cases advanced with
        | none => cases hloop
        | some progress =>
          cases hloop
          have hnone : run.progress.pendingPage = none := not_isSome_iff_eq_none.mp hpage
          obtain ⟨hpageKept, hunfin⟩ := (advancePhase_turns hadv).2
          refine h.goes ⟨?_, ?_, ?_, nofun⟩
          · intro hsaved _
            simpa using hsaved
          · intro _ _
            show Commit digest _ run.expected progress
            rw [hexp]
            exact .turned hnone hadv
          · exact fun _ => ⟨hpageKept.trans hnone, hunfin⟩

theorem read {page : SourcePollingPage} {readAt : Timestamp} (hawait : run.awaits .read = true) :
    PollingSound digest initial
      { σ with
        run := (run.accept page readAt).toOption
        log := σ.log ++ [.read run.request page] } := by
  refine h.note (fun _ _ => PollingEntry.noConfusion) (fun _ => rfl) _ ?_
  intro next hmem
  have haccept : run.accept page readAt = .ok next := toOption_eq_some.mp hmem
  have hexp := expected_of_awaits hrun hawait nofun
  obtain ⟨hnone, hunfin⟩ := hrun.read (of_decide_eq_true hawait).2
  unfold PollingRun.accept at haccept
  obtain ⟨-, haccept⟩ := guard_eq_ok.mp haccept
  obtain ⟨retention, -, haccept⟩ := bind_eq_ok.mp haccept
  cases haccept
  refine ⟨Bool.noConfusion, ?_, nofun, nofun⟩
  intro _ _
  show Commit digest _ run.expected _
  rw [hexp]
  exact .retained hnone hunfin

end

/-- Charging a resumed page changes no position. -/
theorem charge_eq_ok {page : WorkSourcePendingPage} {charged : PollingRun}
    (h : run.charge page = .ok charged) :
    charged.progress = run.progress ∧ charged.expected = run.expected ∧
      charged.saving = run.saving ∧ charged.policy = run.policy ∧ charged.lease = run.lease := by
  unfold PollingRun.charge at h
  split at h
  · cases h
    exact ⟨rfl, rfl, rfl, rfl, rfl⟩
  · obtain ⟨-, h⟩ := guard_eq_ok.mp h
    cases h
    exact ⟨rfl, rfl, rfl, rfl, rfl⟩

section

variable (h : PollingSound digest initial σ) (hrun : RunSound digest σ.stored σ.log run)

include h hrun

theorem settle {expiryAt checkedAt : Timestamp} {candidate : Option JsonValue}
    (hawait : run.awaits .settle = true)
    (hsettle : run.settle expiryAt checkedAt = .ok (next, candidate)) : PollingSound digest initial
      { σ with
        run := some next
        log := σ.log ++ (candidate.map PollingEntry.settled).toList } := by
  have hexp := expected_of_awaits hrun hawait nofun
  obtain ⟨hsaving, -⟩ := of_decide_eq_true hawait
  unfold PollingRun.settle at hsettle
  split at hsettle
  · cases hsettle
  · rename_i page hpage
    obtain ⟨charged, hchrg, hsettle⟩ := bind_eq_ok.mp hsettle
    obtain ⟨hprog, hexpectedKept, hsavingKept, -, -⟩ := charge_eq_ok hchrg
    have hidle : charged.saving = false := hsavingKept.trans hsaving
    split at hsettle
    · rename_i hempty
      cases hsettle
      show PollingSound digest initial { σ with run := some _, log := σ.log ++ [] }
      rw [List.append_nil]
      refine h.goes ⟨?_, ?_, nofun, ?_⟩
      · intro _ hphase
        exact absurd rfl hphase
      · intro htrue
        exact absurd (hidle.symm.trans htrue) Bool.noConfusion
      · intro _
        exact ⟨hidle, run.progress, page, hexpectedKept.trans hexp, hpage,
          .inl ⟨hempty, hprog⟩⟩
    · rename_i first rest hcands
      obtain ⟨-, hsettle⟩ := guard_eq_ok.mp hsettle
      obtain ⟨-, hsettle⟩ := check_eq_ok.mp hsettle
      cases hsettle
      refine h.note (fun _ _ => PollingEntry.noConfusion) (fun _ => rfl) _ ?_
      intro next hmem
      cases hmem
      refine ⟨?_, ?_, nofun, ?_⟩
      · intro _ hphase
        exact absurd rfl hphase
      · intro htrue
        exact absurd (hidle.symm.trans htrue) Bool.noConfusion
      · intro _
        refine ⟨hidle, run.progress, page, hexpectedKept.trans hexp, hpage,
          .inr ⟨first, rest, hcands, ?_, fun _ => ?_⟩⟩
        · show charged.progress.withPage _ = _
          rw [hprog]
        · exact List.getLast?_concat

theorem cover {coveredAt : Timestamp} (hawait : run.awaits .settled = true)
    (hcover : run.cover coveredAt = .ok next) :
    PollingSound digest initial { σ with run := some next } := by
  obtain ⟨-, before, page, hexp, hpage, hahead⟩ :=
    hrun.settled (of_decide_eq_true hawait).2
  -- every outcome saves next, so only the save has to be one of the five
  have hsaves : ∀ (progress : PollingProgress) (charged : Bool),
      (σ.stored = run.expected →
        Commit digest σ.log.getLast? (some before.toProgress) progress) →
      RunSound digest σ.stored σ.log
        { run with progress, charged, saving := true, phase := .complete } := by
    intro progress charged hcmt
    refine ⟨Bool.noConfusion, ?_, nofun, nofun⟩
    intro _ hstor
    show Commit digest _ run.expected progress
    rw [hexp]
    exact hcmt (hstor.resolve_right (by rw [hexp]; exact some_ne_none _))
  unfold PollingRun.cover at hcover
  split at hcover
  · cases hcover
  · rename_i left hleft
    split at hcover
    · rename_i hempty
      obtain ⟨progress, hcov, hcover⟩ := bind_eq_ok.mp hcover
      cases hcover
      refine h.goes (hsaves progress false fun hstor => ?_)
      rcases hahead with ⟨hnone, hsame⟩ | ⟨candidate, rest, hcands, hsame, hlast⟩
      · rw [hsame] at hleft hcov
        cases hpage.symm.trans hleft
        exact .covered hpage (.inl hnone) hcov
      · rw [hsame] at hleft hcov
        cases hleft
        have hrest : rest = [] := hempty
        subst hrest
        exact .covered hpage (.inr ⟨candidate, hcands, hlast hstor⟩) hcov
    · rename_i hne
      cases hcover
      refine h.goes (hsaves run.progress run.charged fun hstor => ?_)
      rcases hahead with ⟨hnone, hsame⟩ | ⟨candidate, rest, hcands, hsame, hlast⟩
      · rw [hsame] at hleft
        cases hpage.symm.trans hleft
        exact absurd hnone hne
      · rw [hsame] at hleft ⊢
        cases hleft
        exact .settled hpage hcands hne (hlast hstor)

theorem save {outcome : SaveOutcome} (hsaving : run.saving = true) :
    PollingSound digest initial (σ.save run outcome) := by
  unfold PollingSystem.save
  split
  · rename_i hacc
    obtain ⟨-, hstor, hvalid⟩ := hacc
    have hcmt := hrun.commit hsaving (.inl hstor)
    refine ⟨.snoc h.written ⟨?_, hvalid, hcmt⟩, ?_, ?_⟩
    · rw [h.stored, hstor]
    · show replay initial (σ.log ++ [_]) = _
      rw [replay_append_singleton]
      rfl
    · intro next hmem
      dsimp only at hmem
      split at hmem
      · cases hmem
        refine ⟨fun _ _ => rfl, Bool.noConfusion, hrun.read, ?_⟩
        intro hphase
        exact absurd (hsaving.symm.trans (hrun.settled hphase).1) Bool.noConfusion
      · cases hmem
  · exact h.idle

end

theorem reset (h : PollingSound digest initial σ) :
    PollingSound digest initial { σ with stored := none, log := σ.log ++ [.reset] } := by
  refine ⟨h.written.note fun _ _ => PollingEntry.noConfusion, ?_, ?_⟩
  · show replay initial (σ.log ++ [_]) = none
    rw [replay_append_singleton]
    rfl
  · intro run hmem
    obtain ⟨hready, hcmt, hread, hset⟩ := h.run run hmem
    refine ⟨hready, ?_, hread, ?_⟩
    · intro hsaving hstor
      have hnone : run.expected = none := hstor.elim Eq.symm id
      have hcommitted := hcmt hsaving (.inr hnone)
      rw [hnone] at hcommitted ⊢
      exact hcommitted.of_none
    · intro hphase
      obtain ⟨hsaving, before, page, hexp, hpage, hahead⟩ := hset hphase
      refine ⟨hsaving, before, page, hexp, hpage, hahead.imp_right ?_⟩
      rintro ⟨candidate, rest, hcands, hsame, -⟩
      refine ⟨candidate, rest, hcands, hsame, ?_⟩
      intro hnone
      rw [hexp] at hnone
      cases hnone

end PollingSound

/-! # Bounds

What one invocation may not pass: its page, item and byte budgets, and the
bounds of every position it saves.
-/

/-! ## Valid positions -/

/-- The bounds of one lane. -/
structure ValidPass (pass : WorkSourcePollPass) : Prop where
  window : pass.windowStart ≤ pass.windowEnd
  cursor : isValidCursor pass.continuation = true
  finished : pass.finished = true → pass.continuation = none

/-- `WorkSourceProgress::validate`, lane by lane. -/
structure ValidProgress (progress : PollingProgress) : Prop where
  active : ValidPass progress.capture
  consumed : progress.state.finished = true → progress.pendingPage = none
  other : ∀ other ∈ progress.state.otherPass,
    other.reconciliation ≠ progress.reconciliation ∧ ValidPass other
  page : ∀ page ∈ progress.pendingPage, page.isValid = true

theorem isValid_iff {progress : PollingProgress} :
    progress.toProgress.isValid = true ↔ ValidProgress progress := by
  obtain ⟨⟨other, due, switch, scan, finished, page⟩, start, end_, continuation, lane⟩ := progress
  simp only [WorkSourceProgress.isValid, WorkSourcePollingState.isValid, PollingProgress.toProgress,
    decide_eq_true_eq, all_some, all_eq_true]
  constructor
  · rintro ⟨hwin, hcurs, hcons, hother, hpage⟩
    refine ⟨⟨hwin, hcurs, ?_⟩, ?_, ?_, hpage⟩
    · intro hfin
      by_contra hsome
      exact hcons ⟨hfin, .inr (isSome_iff_ne_none.mpr hsome)⟩
    · intro hfin
      by_contra hsome
      exact hcons ⟨hfin, .inl (isSome_iff_ne_none.mpr hsome)⟩
    · intro pass hmem
      obtain ⟨hlane, hbounds, hdone, hvalid⟩ := of_decide_eq_true (hother pass hmem)
      refine ⟨hlane, hbounds, hvalid, ?_⟩
      intro hfin
      by_contra hsome
      exact hdone ⟨hfin, isSome_iff_ne_none.mpr hsome⟩
  · rintro ⟨⟨hwin, hcurs, hdone⟩, hcons, hother, hpage⟩
    refine ⟨hwin, hcurs, ?_, ?_, hpage⟩
    · rintro ⟨hfin, hsome | hsome⟩
      · rw [show page = none from hcons hfin] at hsome
        cases hsome
      · rw [show continuation = none from hdone hfin] at hsome
        cases hsome
    · intro pass hmem
      obtain ⟨hlane, hvalid⟩ := hother pass hmem
      refine decide_eq_true ⟨hlane, hvalid.window, ?_, hvalid.cursor⟩
      rintro ⟨hfin, hsome⟩
      rw [hvalid.finished hfin] at hsome
      cases hsome

variable {digest : PassDigest} {policy : SourcePollingPolicy} {lease : SourcePollingLease}
  {now : Timestamp} {before after : PollingProgress}

theorem overlap_le_of_lt {end_ : Timestamp} {millis : Nat} (hnow : epoch ≤ now)
    (h : end_ < now) : overlap end_ millis ≤ now := by
  rw [Timestamp.le_iff] at *
  rw [Timestamp.lt_iff] at h
  show max (end_.unixMillis - millis) 0 ≤ now.unixMillis
  have hpos : 0 ≤ now.unixMillis := hnow
  omega

/-- A pass that has only just started. -/
theorem ValidPass.new {pass : WorkSourcePollPass} (hwin : pass.windowStart ≤ pass.windowEnd)
    (hcont : pass.continuation = none) : ValidPass pass :=
  ⟨hwin, by rw [hcont]; rfl, fun _ => hcont⟩

theorem ValidProgress.restart (hnow : epoch ≤ now)
    (h : PollingProgress.restart digest policy lease now = .ok after) : ValidProgress after := by
  have hfresh := restart_fresh h
  have hcont : after.continuation = none := by
    unfold PollingProgress.restart at h
    obtain ⟨due, -, h⟩ := bind_eq_ok.mp h
    cases h
    rfl
  refine ⟨.new ?_ hcont, fun _ => hfresh.page, ?_, ?_⟩
  · show after.windowStart ≤ after.windowEnd
    rw [hfresh.start, hfresh.ends]
    exact hnow
  · intro other hmem
    rw [hfresh.other] at hmem
    cases hmem
  · intro page hmem
    rw [hfresh.page] at hmem
    cases hmem

theorem ValidProgress.turn (hnow : epoch ≤ now) (h : ValidProgress before)
    (hturn : Turn now before after) (hreadable : Readable before after) : ValidProgress after := by
  have hcons : after.state.finished = true → after.pendingPage = none := by
    intro hfin
    rw [hreadable.finished] at hfin
    cases hfin
  have hpage : ∀ page ∈ after.pendingPage, page.isValid = true := by
    rw [hreadable.page]
    exact h.page
  cases hturn with
  | stayed hcap hother =>
    refine ⟨hcap ▸ h.active, hcons, ?_, hpage⟩
    rw [hother, show after.reconciliation = before.reconciliation from
      congrArg (·.reconciliation) hcap]
    exact h.other
  | next hlane _ hafter hwin hact hother =>
    refine ⟨.new ?_ hact.2, hcons, ?_, hpage⟩
    · show after.windowStart ≤ after.windowEnd
      rw [hwin.1, hwin.2]
      exact overlap_le_of_lt hnow hafter
    · rw [hother, hact.1, ← hlane]
      exact h.other
  | resumed hpass _ hcap hother =>
    obtain ⟨hdiffer, hvalid⟩ := h.other _ hpass
    refine ⟨hcap ▸ hvalid, hcons, ?_, hpage⟩
    intro other hmem
    rw [hother] at hmem
    cases hmem
    refine ⟨?_, h.active⟩
    rw [show after.reconciliation = _ from congrArg (·.reconciliation) hcap]
    exact hdiffer.symm
  | incremental hlane _ _ hafter hwin hact hother =>
    refine ⟨.new ?_ hact.2, hcons, ?_, hpage⟩
    · show after.windowStart ≤ after.windowEnd
      rw [hwin.1, hwin.2]
      exact overlap_le_of_lt hnow hafter
    · intro other hmem
      rw [hother] at hmem
      cases hmem
      rw [hact.1]
      exact ⟨by rw [show before.capture.reconciliation = true from hlane]; exact Bool.noConfusion,
        h.active⟩
  | reconcile hlane _ hwin hact hother =>
    refine ⟨.new ?_ hact.2, hcons, ?_, hpage⟩
    · show after.windowStart ≤ after.windowEnd
      rw [hwin.1, hwin.2]
      exact hnow
    · intro other hmem
      rw [hother] at hmem
      cases hmem
      rw [hact.1]
      exact ⟨by rw [show before.capture.reconciliation = false from hlane]; exact Bool.noConfusion,
        h.active⟩

/-- A page whose bounds are those of the store. -/
structure LawfulPage (page : SourcePollingPage) : Prop where
  cursor : isValidCursor page.nextCursor = true
  candidates : ∀ candidate ∈ page.candidates,
    candidate.encoded.utf8ByteSize ≤ maxSourceInputBytes

/-- The payload of a retained page is part of what was read. -/
theorem encodedPayloadBytes_retain_le (page : SourcePollingPage) (retention : Timestamp) :
    (page.retain retention).encodedPayloadBytes ≤ page.encodedSize :=
  Nat.le_add_right _ _

/-- A page that fits its request fits the store. -/
theorem retain_isValid {page : SourcePollingPage} {retention : Timestamp}
    (hlawful : LawfulPage page) (hsize : page.encodedSize ≤ policy.maxPageBytes)
    (hitems : page.candidates.length ≤ policy.pageItems) :
    (page.retain retention).isValid = true := by
  have hbytes := (encodedPayloadBytes_retain_le page retention).trans
    (hsize.trans policy.maxPageBytes_bounded.2)
  have hcount : page.candidates.length ≤ maxSourcePollPageItems :=
    hitems.trans policy.pageItems_bounded.2
  exact decide_eq_true ⟨hlawful.cursor, hcount, hbytes, hlawful.candidates⟩

/-- A page without its first candidate is no larger. -/
theorem isValid_rest {page : WorkSourcePendingPage} {candidate : JsonValue} {rest : List JsonValue}
    (h : page.isValid = true) (hcands : page.candidates = candidate :: rest) :
    WorkSourcePendingPage.isValid { page with candidates := rest } = true := by
  obtain ⟨hcurs, hcount, hbytes, hitems⟩ := of_decide_eq_true h
  rw [hcands] at hcount hitems
  refine decide_eq_true ⟨hcurs, ?_, ?_, fun other hmem => hitems other (.tail _ hmem)⟩
  · exact (Nat.le_succ _).trans hcount
  · have harray : arraySize rest ≤ arraySize page.candidates := by
      rw [hcands]
      unfold arraySize
      simp only [List.map_cons, List.sum_cons, List.length_cons]
      omega
    refine le_trans ?_ hbytes
    unfold WorkSourcePendingPage.encodedPayloadBytes
    dsimp only
    omega

theorem ValidProgress.withPage {page : WorkSourcePendingPage} (h : ValidProgress before)
    (hunfin : before.state.finished = false) (hpage : page.isValid = true) :
    ValidProgress (before.withPage (some page)) := by
  refine ⟨h.active, ?_, h.other, ?_⟩
  · intro hfin
    rw [show (before.withPage (some page)).state.finished = false from hunfin] at hfin
    cases hfin
  · intro page' hmem
    cases hmem
    exact hpage

theorem ValidProgress.covered {page : WorkSourcePendingPage} (h : ValidProgress before)
    (hpage : page.isValid = true) (hpassed : Passed before after page) : ValidProgress after := by
  have hlane : after.reconciliation = before.reconciliation :=
    congrArg (·.reconciliation) hpassed.capture
  refine ⟨?_, fun _ => hpassed.page, ?_, ?_⟩
  · rw [hpassed.capture]
    refine ⟨h.active.window, (of_decide_eq_true hpage).1, ?_⟩
    intro hfin
    exact isNone_iff_eq_none.mp hfin
  · rw [hpassed.other, hlane]
    exact h.other
  · intro page' hmem
    rw [hpassed.page] at hmem
    cases hmem

end OctaCity.Source
