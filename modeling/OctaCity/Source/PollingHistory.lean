/-
  OctaCity.Source.PollingHistory

  What a polled target's history may look like: every stored position follows
  from the one before it by one of five saves.  The history is the abstract
  level; the driver's runs refine it.
-/
import OctaCity.Lib.Windows
import OctaCity.Source.Polling

namespace OctaCity.Source

open Domain Lib List

/-! ## Entries and saves -/

inductive PollingEntry
  /-- The provider answered a read. -/
  | read (request : SourcePollingRequest) (page : SourcePollingPage)
  /-- A candidate was settled. -/
  | settled (candidate : JsonValue)
  /-- A position was stored in place of another. -/
  | committed (before : Option WorkSourceProgress) (after : PollingProgress)
  /-- The position was dropped: its page expired, or the definition was replaced. -/
  | reset
  /-- An invocation ended without an error. -/
  | returned (policy : SourcePollingPolicy) (outcome : SourcePollOutcome)

namespace PollingEntry

/-- The stored position after an entry. -/
def stored (entry : PollingEntry) (before : Option WorkSourceProgress) :
    Option WorkSourceProgress :=
  match entry with
  | .committed _ after => some after.toProgress
  | .reset => none
  | _ => before

/-- Whether the position starts over, so that a retained page may be left behind. -/
def startsOver : PollingEntry → Bool
  | .reset => true
  | .committed before after =>
    (before.bind (·.pendingPage)).isSome ∧ after.pendingPage = none ∧
      after.state.switchAfterPage = false
  | _ => false

/-- The window of the incremental pass that an entry finishes. -/
def finishedWindow : PollingEntry → Option (Timestamp × Timestamp)
  | .committed before after =>
    if (before.bind (·.pendingPage)).isSome ∧ after.pendingPage = none ∧
        after.state.finished ∧ ¬ after.reconciliation then
      some (after.windowStart, after.windowEnd)
    else none
  | _ => none

end PollingEntry

/-- The stored position at the end of a history. -/
def replay (initial : Option WorkSourceProgress) (log : List PollingEntry) :
    Option WorkSourceProgress :=
  log.foldl (fun before entry => entry.stored before) initial

@[simp]
theorem replay_append_singleton (initial : Option WorkSourceProgress) (log : List PollingEntry)
    (entry : PollingEntry) :
    replay initial (log ++ [entry]) = entry.stored (replay initial log) := by
  unfold replay
  rw [foldl_append, foldl_cons, foldl_nil]

variable (digest : PassDigest)

/-- The five saves of the driver. -/
inductive Commit (last : Option PollingEntry) :
    Option WorkSourceProgress → PollingProgress → Prop
  | restarted {policy : SourcePollingPolicy} {lease : SourcePollingLease} {now : Timestamp}
      {before : Option WorkSourceProgress} {after : PollingProgress}
      (hover : PollingRun.startsOver before now = true)
      (h : PollingProgress.restart digest policy lease now = .ok after) :
      Commit last before after
  | turned {policy : SourcePollingPolicy} {lease : SourcePollingLease} {now : Timestamp}
      {before after : PollingProgress} (hpage : before.pendingPage = none)
      (h : before.advancePhase digest policy lease now = .ok (some after)) :
      Commit last (some before.toProgress) after
  | retained {before : PollingProgress} {page : WorkSourcePendingPage}
      (hpage : before.pendingPage = none) (hfin : before.state.finished = false) :
      Commit last (some before.toProgress) (before.withPage (some page))
  | settled {before : PollingProgress} {page : WorkSourcePendingPage} {candidate : JsonValue}
      {rest : List JsonValue} (hpage : before.pendingPage = some page)
      (hcands : page.candidates = candidate :: rest) (hrest : rest ≠ [])
      (hlast : last = some (.settled candidate)) :
      Commit last (some before.toProgress)
        (before.withPage (some { page with candidates := rest }))
  | covered {policy : SourcePollingPolicy} {now : Timestamp} {before after : PollingProgress}
      {page : WorkSourcePendingPage} (hpage : before.pendingPage = some page)
      (hset : page.candidates = [] ∨
        ∃ candidate, page.candidates = [candidate] ∧ last = some (.settled candidate))
      (h : before.covered policy page now = .ok after) :
      Commit last (some before.toProgress) after

/-- What an entry adds to a history. -/
def PollingEntry.Follows (last : Option PollingEntry) (before : Option WorkSourceProgress) :
    PollingEntry → Prop
  | .committed expected after =>
    expected = before ∧ after.toProgress.isValid = true ∧ Commit digest last expected after
  | _ => True

/-- A history in which every entry follows from those before it. -/
inductive Written (initial : Option WorkSourceProgress) : List PollingEntry → Prop
  | nil : Written initial []
  | snoc {log : List PollingEntry} {entry : PollingEntry} (hlog : Written initial log)
      (hentry : entry.Follows digest log.getLast? (replay initial log)) :
      Written initial (log ++ [entry])

variable {digest}

theorem Written.last {initial : Option WorkSourceProgress} {log : List PollingEntry}
    {entry : PollingEntry} (h : Written digest initial (log ++ [entry])) :
    Written digest initial log ∧ entry.Follows digest log.getLast? (replay initial log) := by
  generalize hwhole : log ++ [entry] = whole at h
  cases h with
  | nil => simp at hwhole
  | snoc hlog hentry =>
    obtain ⟨rfl, hlast⟩ := append_inj' hwhole rfl
    cases hlast
    exact ⟨hlog, hentry⟩

theorem Written.earlier {initial : Option WorkSourceProgress} {log rest : List PollingEntry}
    (h : Written digest initial (log ++ rest)) : Written digest initial log := by
  induction rest using List.reverseRecOn with
  | nil => rwa [append_nil] at h
  | append_singleton rest entry ih =>
    rw [← append_assoc] at h
    exact ih h.last.1

/-! ## What a save changes -/

namespace PollingProgress

/-- How `advance_phase` moves between the two lanes at an instant. -/
inductive Turn (now : Timestamp) (before : PollingProgress) : PollingProgress → Prop
  | stayed {after : PollingProgress} (hcap : after.capture = before.capture)
      (hother : after.state.otherPass = before.state.otherPass) : Turn now before after
  /-- A finished incremental lane starts its next window. -/
  | next {after : PollingProgress} {overlapMillis : Nat} (hlane : before.reconciliation = false)
      (hfin : before.state.finished = true) (hafter : before.windowEnd < now)
      (hwin : after.windowStart = overlap before.windowEnd overlapMillis ∧
        after.windowEnd = now)
      (hact : after.reconciliation = false ∧ after.continuation = none)
      (hother : after.state.otherPass = before.state.otherPass) : Turn now before after
  /-- The suspended lane goes on where it was. -/
  | resumed {after : PollingProgress} {pass : WorkSourcePollPass}
      (hpass : before.state.otherPass = some pass) (hfin : pass.finished = false)
      (hcap : after.capture = pass)
      (hother : after.state.otherPass = some before.capture) : Turn now before after
  /-- The incremental lane was finished: its next window starts. -/
  | incremental {after : PollingProgress} {pass : WorkSourcePollPass} {overlapMillis : Nat}
      (hlane : before.reconciliation = true) (hpass : before.state.otherPass = some pass)
      (hfin : pass.finished = true) (hafter : pass.windowEnd < now)
      (hwin : after.windowStart = overlap pass.windowEnd overlapMillis ∧ after.windowEnd = now)
      (hact : after.reconciliation = false ∧ after.continuation = none)
      (hother : after.state.otherPass = some before.capture) : Turn now before after
  /-- A new reconciliation starts. -/
  | reconcile {after : PollingProgress} (hlane : before.reconciliation = false)
      (hpass : ∀ pass ∈ before.state.otherPass, pass.finished = true)
      (hwin : after.windowStart = epoch ∧ after.windowEnd = now)
      (hact : after.reconciliation = true ∧ after.continuation = none)
      (hother : after.state.otherPass = some before.capture) : Turn now before after

/-- What every turn leaves as it was, and that it leads to a read. -/
structure Readable (before after : PollingProgress) : Prop where
  page : after.pendingPage = before.pendingPage
  finished : after.state.finished = false

variable {policy : SourcePollingPolicy} {lease : SourcePollingLease} {now : Timestamp}
  {before after : PollingProgress}

theorem continuePhase_of_unfinished {progress : PollingProgress}
    (h : progress.state.finished = false) :
    progress.continuePhase digest policy lease now =
      some { progress with state := { progress.state with switchAfterPage := false } } := by
  unfold continuePhase
  simp only [h, Bool.false_eq_true, if_false]

theorem switchTo_continues {pass : WorkSourcePollPass} (hpass : pass.finished = false)
    (h : Except.ok (ε := ApplicationError)
      ((before.switchTo pass).continuePhase digest policy lease now) = .ok (some after)) :
    after.capture = pass ∧ after.state.otherPass = some before.capture ∧
      Readable before after := by
  rw [continuePhase_of_unfinished hpass] at h
  cases h
  exact ⟨rfl, rfl, rfl, hpass⟩

theorem advancePhase_turns (h : before.advancePhase digest policy lease now = .ok (some after)) :
    Turn now before after ∧ Readable before after := by
  unfold advancePhase at h
  dsimp only at h
  split at h
  · -- the reconciliation lane may give way
    rename_i hlane
    split at h
    · cases h
    · rename_i pass hpass
      split at h
      · rename_i hfin
        split at h
        · split at h
          · cases h
          · rename_i hunfin
            cases h
            have hact : before.state.finished = false := by simpa using hunfin
            exact ⟨.stayed rfl rfl, rfl, hact⟩
        · rename_i hafter
          obtain ⟨hcap, hother, hread⟩ := switchTo_continues rfl h
          exact ⟨.incremental hlane.1 hpass hfin (not_le.mp hafter)
            ⟨congrArg (·.windowStart) hcap, congrArg (·.windowEnd) hcap⟩
            ⟨congrArg (·.reconciliation) hcap, congrArg (·.continuation) hcap⟩
            hother, hread⟩
      · rename_i hunfin
        have hpassUnfinished : pass.finished = false := by simpa using hunfin
        obtain ⟨hcap, hother, hread⟩ := switchTo_continues hpassUnfinished h
        exact ⟨.resumed hpass hpassUnfinished hcap hother, hread⟩
  · rename_i hstays
    split at h
    · -- the incremental lane gives way
      rename_i hlane
      have hincr : before.reconciliation = false := by simpa using hlane.1
      cases hsuspended : before.state.otherPass.filter fun pass => ¬ pass.finished with
      | some pass =>
        rw [hsuspended] at h
        obtain ⟨hpass, hunfin⟩ := Option.filter_eq_some_iff.mp hsuspended
        have hpassUnfinished : pass.finished = false := by simpa using hunfin
        obtain ⟨hcap, hother, hread⟩ := switchTo_continues hpassUnfinished h
        exact ⟨.resumed hpass hpassUnfinished hcap hother, hread⟩
      | none =>
        rw [hsuspended] at h
        obtain ⟨hcap, hother, hread⟩ := switchTo_continues rfl h
        refine ⟨.reconcile hincr ?_
          ⟨congrArg (·.windowStart) hcap, congrArg (·.windowEnd) hcap⟩
          ⟨congrArg (·.reconciliation) hcap, congrArg (·.continuation) hcap⟩ hother,
          hread⟩
        intro pass hpass
        have hnone := Option.filter_eq_none_iff.mp hsuspended pass hpass
        simpa using hnone
    · -- the active lane goes on
      unfold continuePhase at h
      dsimp only at h
      split at h
      · rename_i hfin
        have hlane : before.reconciliation = false := by
          cases hrecon : before.reconciliation with
          | false => rfl
          | true => exact absurd ⟨hrecon, .inr hfin⟩ hstays
        split at h
        · cases h
        · rename_i hafter
          cases h
          exact ⟨.next hlane hfin (not_le.mp hafter) ⟨rfl, rfl⟩ ⟨rfl, rfl⟩ rfl, rfl, rfl⟩
      · rename_i hunfin
        cases h
        exact ⟨.stayed rfl rfl, rfl, by simpa using hunfin⟩

end PollingProgress

end OctaCity.Source
