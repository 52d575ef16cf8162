/-
  OctaCity.Source.Polling

  The shared page and reconciliation driver of a source scan
  (`source_polling.rs` of the application crate), cut at its awaits: between two
  of them the driver is one `PollingRun`, and the function of that await says
  what it does up to the next one.
-/
import OctaCity.Source.Scans

namespace OctaCity.Source

open Domain Lib
open Factory (FactoryDigest)

/-! ## Policy and errors -/

/-- An installed policy that `SourcePollingPolicy::validate` accepts. -/
structure SourcePollingPolicy where
  pageItems : Nat
  maxPages : Nat
  maxItems : Nat
  maxBytes : Nat
  maxPageBytes : Nat
  overlapMillis : Nat
  reconciliationIntervalMillis : Nat
  retentionMillis : Nat
  pageItems_bounded : 1 ≤ pageItems ∧ pageItems ≤ maxSourcePollPageItems
  maxPages_bounded : 1 ≤ maxPages ∧ maxPages ≤ 100
  maxItems_bounded : 1 ≤ maxItems ∧ maxItems ≤ 10000
  maxPageBytes_bounded : 1 ≤ maxPageBytes ∧ maxPageBytes ≤ maxSourcePollPageBytes
  maxBytes_bounded : maxPageBytes ≤ maxBytes ∧ maxBytes ≤ 67108864
  interval_bounded : 1 ≤ reconciliationIntervalMillis ∧ reconciliationIntervalMillis < 2 ^ 63
  overlap_bounded : overlapMillis < 2 ^ 63
  retention_bounded : 1 ≤ retentionMillis ∧ retentionMillis ≤ maxSourceRetentionMillis

/-- `StoreError`, as far as a scan schedule tells its errors apart. -/
inductive StoreFailure
  | unavailable
  /-- A conflict; whether its entity is a Factory Run. -/
  | conflict (onFactoryRun : Bool)
  | other

/-- `ApplicationError`, as far as a scan schedule tells its errors apart. -/
inductive ApplicationError
  | invalid
  | capabilityUnavailable
  | sourceDependency (class_ : WorkSourceFailure) (retryAfterMillis : Option Nat)
  /-- The codes of a diagnostic. -/
  | factoryValidation (codes : List String)
  | store (error : StoreFailure)
  | other

def sourceConflict : ApplicationError := .store (.conflict false)

/-- The instant `0` of the provider windows. -/
def epoch : Timestamp := ⟨0, by decide⟩

/-- `checked_add`, then `from_unix_millis`. -/
def addMillis (at_ : Timestamp) (millis : Nat) : Except ApplicationError Timestamp :=
  okOr (Timestamp.fromUnixMillis (at_.unixMillis + millis)) .invalid

/-- `overlap`: never before the epoch, so always a supported instant. -/
def overlap (end_ : Timestamp) (millis : Nat) : Timestamp :=
  ⟨max (end_.unixMillis - millis) 0, by
    have hend := end_.supported
    unfold minTimestampMillis maxTimestampMillis at *
    omega⟩

structure SourcePollingLease where
  projectId : Nat
  target : List UInt8
  acquiredAt : Timestamp
  /-- `until`. -/
  deadline : Timestamp

def requireTime (lease : SourcePollingLease) (now : Timestamp) : Except ApplicationError Unit :=
  if now < lease.acquiredAt ∨ lease.deadline ≤ now then .error sourceConflict else .ok ()

/-! ## Positions and lanes -/

/-- A position with its polling state; the driver holds no other once it has started. -/
structure PollingProgress where
  state : WorkSourcePollingState
  windowStart : Timestamp
  windowEnd : Timestamp
  continuation : Option String
  reconciliation : Bool

def PollingProgress.toProgress (progress : PollingProgress) : WorkSourceProgress :=
  { polling := some progress.state, windowStart := progress.windowStart
    windowEnd := progress.windowEnd, continuation := progress.continuation
    reconciliation := progress.reconciliation }

theorem PollingProgress.toProgress_injective : Function.Injective toProgress := by
  intro a b h
  cases a
  cases b
  simp only [toProgress, WorkSourceProgress.mk.injEq, Option.some.injEq] at h
  simp only [PollingProgress.mk.injEq]
  exact h

/-- The position of a document that has a polling state. -/
def WorkSourceProgress.live (progress : WorkSourceProgress) : Option PollingProgress :=
  progress.polling.map fun state =>
    { state, windowStart := progress.windowStart, windowEnd := progress.windowEnd
      continuation := progress.continuation, reconciliation := progress.reconciliation }

@[simp]
theorem live_eq_some {document : WorkSourceProgress} {progress : PollingProgress} :
    document.live = some progress ↔ document = progress.toProgress := by
  cases document
  cases progress
  simp only [WorkSourceProgress.live, PollingProgress.toProgress, Option.map_eq_some_iff,
    PollingProgress.mk.injEq, WorkSourceProgress.mk.injEq]
  constructor
  · rintro ⟨state, rfl, rfl, rfl, rfl, rfl, rfl⟩
    exact ⟨rfl, rfl, rfl, rfl, rfl⟩
  · rintro ⟨rfl, rfl, rfl, rfl, rfl⟩
    exact ⟨_, rfl, rfl, rfl, rfl, rfl, rfl⟩

/-- The digest of a pass: its lease's Project and target, its window and its lane. -/
abbrev PassDigest :=
  Nat → List UInt8 → Timestamp → Timestamp → Bool → FactoryDigest

variable (digest : PassDigest)

/-- `pass`. -/
def newPass (lease : SourcePollingLease) (start end_ : Timestamp) (reconciliation : Bool) :
    WorkSourcePollPass :=
  { scanId := digest lease.projectId lease.target start end_ reconciliation
    windowStart := start, windowEnd := end_, continuation := none, reconciliation
    finished := false }

namespace PollingProgress

def capture (progress : PollingProgress) : WorkSourcePollPass :=
  { scanId := progress.state.scanId, windowStart := progress.windowStart
    windowEnd := progress.windowEnd, continuation := progress.continuation
    reconciliation := progress.reconciliation, finished := progress.state.finished }

def activate (progress : PollingProgress) (pass : WorkSourcePollPass) : PollingProgress :=
  { windowStart := pass.windowStart, windowEnd := pass.windowEnd
    continuation := pass.continuation, reconciliation := pass.reconciliation
    state := { progress.state with scanId := pass.scanId, finished := pass.finished } }

/-- The other lane becomes the active one. -/
def switchTo (progress : PollingProgress) (pass : WorkSourcePollPass) : PollingProgress :=
  let active := progress.activate pass
  { active with state := { active.state with otherPass := some progress.capture } }

/-- The page of a position. -/
def pendingPage (progress : PollingProgress) : Option WorkSourcePendingPage :=
  progress.state.pendingPage

def withPage (progress : PollingProgress) (page : Option WorkSourcePendingPage) :
    PollingProgress :=
  { progress with state := { progress.state with pendingPage := page } }

/-- The tail of `advance_phase`: a finished lane starts its next window, once there is one. -/
def continuePhase (policy : SourcePollingPolicy) (lease : SourcePollingLease)
    (progress : PollingProgress) (now : Timestamp) : Option PollingProgress :=
  let ready (progress : PollingProgress) : PollingProgress :=
    { progress with state := { progress.state with switchAfterPage := false } }
  if progress.state.finished then
    if now ≤ progress.windowEnd then none
    else
      let start := overlap progress.windowEnd policy.overlapMillis
      some (ready (progress.activate (newPass digest lease start now false)))
  else some (ready progress)

/-- `advance_phase`; `none` where there is nothing to read yet. -/
def advancePhase (policy : SourcePollingPolicy) (lease : SourcePollingLease)
    (progress : PollingProgress) (now : Timestamp) :
    Except ApplicationError (Option PollingProgress) :=
  let state := progress.state
  if progress.reconciliation ∧ (state.switchAfterPage ∨ state.finished) then
    match state.otherPass with
    | none => .error .invalid
    | some next =>
      if next.finished then
        if now ≤ next.windowEnd then .ok (if state.finished then none else some progress)
        else
          let start := overlap next.windowEnd policy.overlapMillis
          .ok ((progress.switchTo (newPass digest lease start now false)).continuePhase
            digest policy lease now)
      else .ok ((progress.switchTo next).continuePhase digest policy lease now)
  else if ¬ progress.reconciliation ∧ state.switchAfterPage ∧
      (state.reconciliationDueAt ≤ now ∨ state.otherPass.any fun pass => ¬ pass.finished) then
    let next :=
      match state.otherPass.filter fun pass => ¬ pass.finished with
      | some pass => pass
      | none => newPass digest lease epoch now true
    .ok ((progress.switchTo next).continuePhase digest policy lease now)
  else .ok (progress.continuePhase digest policy lease now)

/-- The position from which a scan covers everything again. -/
def restart (policy : SourcePollingPolicy) (lease : SourcePollingLease) (now : Timestamp) :
    Except ApplicationError PollingProgress := do
  let due ← addMillis now policy.reconciliationIntervalMillis
  .ok
    { windowStart := epoch, windowEnd := now, continuation := none, reconciliation := false
      state :=
        { otherPass := none, reconciliationDueAt := due, switchAfterPage := false
          scanId := (newPass digest lease epoch now false).scanId
          finished := false, pendingPage := none } }

/-- When the next reconciliation is due after a page; a finished one counts from now. -/
def dueAfter (policy : SourcePollingPolicy) (progress : PollingProgress) (finished : Bool)
    (now : Timestamp) : Except ApplicationError Timestamp :=
  if progress.reconciliation ∧ finished then addMillis now policy.reconciliationIntervalMillis
  else .ok progress.state.reconciliationDueAt

/-- The page is behind the position: its cursor becomes the continuation. -/
def covered (policy : SourcePollingPolicy) (progress : PollingProgress)
    (page : WorkSourcePendingPage) (now : Timestamp) : Except ApplicationError PollingProgress := do
  let due ← progress.dueAfter policy page.nextCursor.isNone now
  .ok
    { progress with
      continuation := page.nextCursor
      state :=
        { progress.state with
          pendingPage := none, finished := page.nextCursor.isNone, switchAfterPage := true
          reconciliationDueAt := due } }

end PollingProgress

/-! ## Pages -/

/-- What a provider returns; only some sessions set `expires_at`. -/
structure SourcePollingPage where
  expiresAt : Option Timestamp
  candidates : List JsonValue
  nextCursor : Option String

/-- The page as it is retained until the given instant. -/
def SourcePollingPage.retain (page : SourcePollingPage) (retention : Timestamp) :
    WorkSourcePendingPage :=
  { candidates := page.candidates, nextCursor := page.nextCursor
    expiresAt := page.expiresAt.elim retention fun original => min original retention }

/-- `serde_json::to_vec(&page)`: the retained payload and, where set, the original expiry. -/
def SourcePollingPage.encodedSize (page : SourcePollingPage) : Nat :=
  (page.retain epoch).encodedPayloadBytes +
    page.expiresAt.elim 0 fun original =>
      "\"expires_at\":,".utf8ByteSize + (toString original.unixMillis).utf8ByteSize

structure SourcePollingRequest where
  scanId : FactoryDigest
  window : Option (Timestamp × Timestamp)
  continuation : Option String
  maxItems : Nat
  maxPageBytes : Nat

structure SourcePollOutcome where
  bytesExamined : Nat
  pagesRead : Nat
  itemsProcessed : Nat

/-! ## The driver between two awaits -/

/-- The await at which the driver stands. -/
inductive PollingPhase
  /-- At the head of the loop. -/
  | loop
  | read
  | settle
  /-- A candidate of the page is settled, or there was none. -/
  | settled
  /-- `session.complete()`, at the end of an iteration. -/
  | complete
  deriving DecidableEq

/-- The local variables of `run_once`. -/
structure PollingRun where
  policy : SourcePollingPolicy
  lease : SourcePollingLease
  expected : Option WorkSourceProgress
  progress : PollingProgress
  outcome : SourcePollOutcome
  charged : Bool
  /-- Whether the position is being saved; the phase is the one after the save. -/
  saving : Bool
  phase : PollingPhase

namespace PollingRun

/-- Whether `run_once` starts over: no polling state, or an expired page. -/
def startsOver (stored : Option WorkSourceProgress) (now : Timestamp) : Bool :=
  match stored.bind (·.live) with
  | none => true
  | some progress => progress.pendingPage.any fun page => page.expiresAt ≤ now

theorem startsOver_live {progress : PollingProgress} {now : Timestamp} :
    startsOver (some progress.toProgress) now = true ↔
      ∃ page, progress.pendingPage = some page ∧ page.expiresAt ≤ now := by
  show (progress.pendingPage.any fun page => page.expiresAt ≤ now) = true ↔ _
  cases progress.pendingPage with
  | none => simp
  | some page => simp

/-- `run_once` up to its first await. -/
def start (policy : SourcePollingPolicy) (lease : SourcePollingLease)
    (stored : Option WorkSourceProgress) (now : Timestamp) : Except ApplicationError PollingRun := do
  requireTime lease now
  let run (progress : PollingProgress) (saving : Bool) : PollingRun :=
    { policy, lease, expected := stored, progress, outcome := ⟨0, 0, 0⟩, charged := false
      saving, phase := .loop }
  match stored.bind (·.live) with
  | none => do
    let progress ← PollingProgress.restart digest policy lease now
    .ok (run progress true)
  | some progress =>
    if startsOver stored now then do
      let progress ← PollingProgress.restart digest policy lease now
      .ok (run progress true)
    else .ok (run progress false)

variable (run : PollingRun)

/-- What `read` is asked. -/
def request : SourcePollingRequest :=
  { scanId := run.progress.state.scanId
    window :=
      if run.progress.reconciliation then none
      else some (run.progress.windowStart, run.progress.windowEnd)
    continuation := run.progress.continuation
    maxItems := run.policy.pageItems, maxPageBytes := run.policy.maxPageBytes }

/-- One iteration up to its read or its page; `none` where the loop ends. -/
def loop (checkedAt advancedAt : Timestamp) : Except ApplicationError (Option PollingRun) := do
  if run.policy.maxItems ≤ run.outcome.itemsProcessed then .ok none
  else do
    requireTime run.lease checkedAt
    if run.progress.pendingPage.isSome then .ok (some { run with phase := .settle })
    else if run.policy.maxPages ≤ run.outcome.pagesRead ∨
        run.policy.maxBytes < run.outcome.bytesExamined + run.policy.maxPageBytes then .ok none
    else do
      let advanced ← run.progress.advancePhase digest run.policy run.lease advancedAt
      .ok (advanced.map fun progress =>
        { run with
          progress
          saving := run.expected ≠ some progress.toProgress
          phase := .read })

/-- The answer of a read. -/
def accept (page : SourcePollingPage) (readAt : Timestamp) : Except ApplicationError PollingRun := do
  if run.policy.maxPageBytes < page.encodedSize ∨ run.policy.pageItems < page.candidates.length then
    .error .invalid
  else do
    let retention ← addMillis readAt run.policy.retentionMillis
    .ok
      { run with
        outcome :=
          { run.outcome with
            bytesExamined := run.outcome.bytesExamined + page.encodedSize
            pagesRead := run.outcome.pagesRead + 1 }
        charged := true
        progress := run.progress.withPage (some (page.retain retention))
        saving := true
        phase := .settle }

/-- A page resumed from an earlier invocation counts once. -/
def charge (page : WorkSourcePendingPage) : Except ApplicationError PollingRun :=
  if run.charged then .ok run
  else if run.policy.maxPageBytes < page.encodedPayloadBytes ∨
      run.policy.maxBytes < page.encodedPayloadBytes then .error .invalid
  else
    .ok
      { run with
        outcome := { run.outcome with bytesExamined := page.encodedPayloadBytes }
        charged := true }

/-- The settlement of the page's first candidate, which is the second result. -/
def settle (expiryAt checkedAt : Timestamp) :
    Except ApplicationError (PollingRun × Option JsonValue) :=
  match run.progress.pendingPage with
  -- `pending_page.as_mut().unwrap()`: the phase has a page
  | none => .error .other
  | some page => do
    let run ← run.charge page
    match page.candidates with
    | [] => .ok ({ run with phase := .settled }, none)
    | candidate :: rest =>
      if page.expiresAt ≤ expiryAt then .error .invalid
      else do
        requireTime run.lease checkedAt
        .ok
          ({ run with
             progress := run.progress.withPage (some { page with candidates := rest })
             outcome := { run.outcome with itemsProcessed := run.outcome.itemsProcessed + 1 }
             phase := .settled },
           some candidate)

/-- The end of an iteration up to its save. -/
def cover (coveredAt : Timestamp) : Except ApplicationError PollingRun :=
  match run.progress.pendingPage with
  | none => .error .other
  | some page =>
    if page.candidates = [] then do
      let progress ← run.progress.covered run.policy page coveredAt
      .ok { run with progress, charged := false, saving := true, phase := .complete }
    else .ok { run with saving := true, phase := .complete }

end PollingRun

/-! ## Samples -/

def samplePolicy : SourcePollingPolicy :=
  { pageItems := 2, maxPages := 4, maxItems := 8, maxBytes := 4096, maxPageBytes := 1024
    overlapMillis := 0, reconciliationIntervalMillis := 1000, retentionMillis := 500
    pageItems_bounded := by decide, maxPages_bounded := by decide
    maxItems_bounded := by decide, maxPageBytes_bounded := by decide
    maxBytes_bounded := by decide, interval_bounded := by decide
    overlap_bounded := by decide, retention_bounded := by decide }

def sampleInstant (n : Nat) : Timestamp := ⟨min n 1000, supported_small n⟩

def sampleDigest : PassDigest := fun project _ start end_ reconciliation =>
  ⟨project + 4 * (start.unixMillis.toNat + 1001 * end_.unixMillis.toNat) +
    2 * reconciliation.toNat⟩

end OctaCity.Source
