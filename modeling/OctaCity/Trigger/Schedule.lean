/-
  OctaCity.Trigger.Schedule

  Calendar schedules: which occurrences one durable claim returns and where it
  leaves the cursor.  The cron and timezone parsers and the calendar search are
  a parameter.  `claims` runs the cursor a store persists through a sequence of
  observations; a failed claim persists nothing.
-/
import OctaCity.Domain.Timestamp
import OctaCity.Lib.Result
import OctaCity.Lib.Successor

namespace OctaCity.Trigger

open Domain Lib

/-! ## Definitions -/

/-- Maximum number of missed occurrences one schedule claim may materialize. -/
def maxScheduleCatchUp : Nat := 64

/-- Maximum UTF-8 bytes in one persisted cron expression. -/
def maxScheduleExpressionBytes : Nat := 256

/-- Maximum UTF-8 bytes in one persisted IANA timezone name. -/
def maxScheduleTimezoneBytes : Nat := 128

/-- Stable validation failure for a schedule definition or calculation. -/
inductive ScheduleInputError
  | invalidExpression
  | invalidTimezone
  | invalidCatchUpLimit
  | noNextOccurrence

/-- Policy applied when more than one persisted occurrence is due. -/
inductive MissedRunPolicy
  /-- Run the oldest persisted occurrence once and advance past all other missed times. -/
  | runOnce
  /-- Run oldest occurrences in bounded batches without discarding remaining work. -/
  | catchUp (maximumOccurrences : UInt16)

def MissedRunPolicy.limit : MissedRunPolicy → Except ScheduleInputError Nat
  | .runOnce => .ok 1
  | .catchUp maximumOccurrences =>
    if 1 ≤ maximumOccurrences.toNat ∧ maximumOccurrences.toNat ≤ maxScheduleCatchUp then
      .ok maximumOccurrences.toNat
    else .error .invalidCatchUpLimit

/-- Durable calendar definition for one scheduled Trigger version. -/
structure ScheduleDefinition where
  expression : String
  timezone : String
  missedRunPolicy : MissedRunPolicy

/-- Bounded work selected from one persisted schedule cursor. -/
structure DueScheduleOccurrences where
  occurrences : List Timestamp
  nextOccurrenceAt : Timestamp

/-- The cron and timezone libraries: their two parsers, and the first calendar
    instant after a Unix millisecond instant. -/
structure CalendarLibrary where
  Schedule : Type
  Tz : Type
  scheduleFromStr : String → Option Schedule
  tzFromStr : String → Option Tz
  after : Schedule → Tz → Int → Option Int

/-- `char::is_whitespace`, the Unicode `White_Space` property. -/
def isWhitespace (c : Char) : Bool :=
  let v := c.val.toNat
  (9 ≤ v && v ≤ 13) || v == 0x20 || v == 0x85 || v == 0xa0 || v == 0x1680 ||
    (0x2000 ≤ v && v ≤ 0x200a) || v == 0x2028 || v == 0x2029 || v == 0x202f || v == 0x205f ||
    v == 0x3000

def trim (text : String) : String :=
  String.ofList (((text.toList.dropWhile isWhitespace).reverse.dropWhile isWhitespace).reverse)

namespace ScheduleDefinition

variable (library : CalendarLibrary)

def parsed (definition : ScheduleDefinition) :
    Except ScheduleInputError (library.Schedule × library.Tz) :=
  if trim definition.expression ≠ definition.expression ∨ definition.expression.isEmpty ∨
      maxScheduleExpressionBytes < definition.expression.utf8ByteSize then
    .error .invalidExpression
  else if trim definition.timezone ≠ definition.timezone ∨ definition.timezone.isEmpty ∨
      maxScheduleTimezoneBytes < definition.timezone.utf8ByteSize then
    .error .invalidTimezone
  else do
    let schedule ← okOr (library.scheduleFromStr definition.expression) .invalidExpression
    let timezone ← okOr (library.tzFromStr definition.timezone) .invalidTimezone
    .ok (schedule, timezone)

/-- Validates syntax, timezone, and bounded missed-run behavior. -/
def validate (definition : ScheduleDefinition) : Except ScheduleInputError Unit := do
  let _ ← definition.parsed library
  let _ ← definition.missedRunPolicy.limit
  .ok ()

/-- Every supported instant converts to a `DateTime`, so only the search and the
    range of its result can fail. -/
def nextTimestamp (schedule : library.Schedule) (timezone : library.Tz) (instant : Timestamp) :
    Except ScheduleInputError Timestamp := do
  let next ← okOr (library.after schedule timezone instant.unixMillis) .noNextOccurrence
  okOr (Timestamp.fromUnixMillis next) .noNextOccurrence

/-- Finds the first occurrence strictly after the supplied instant. -/
def nextAfter (definition : ScheduleDefinition) (instant : Timestamp) :
    Except ScheduleInputError Timestamp := do
  let (schedule, timezone) ← definition.parsed library
  nextTimestamp library schedule timezone instant

/-- The catch-up loop; `room` is what the limit leaves beside `occurrences`. -/
def catchUpLoop (definition : ScheduleDefinition) (observedAt : Timestamp) :
    Nat → List Timestamp → Timestamp → Except ScheduleInputError DueScheduleOccurrences
  | 0, occurrences, next => .ok ⟨occurrences, next⟩
  | room + 1, occurrences, next =>
    if next ≤ observedAt then do
      -- The successor is asked for before the batch is returned.
      let successor ← definition.nextAfter library next
      catchUpLoop definition observedAt room (occurrences ++ [next]) successor
    else .ok ⟨occurrences, next⟩

/-- Selects the bounded due batch and its durable continuation. -/
def dueOccurrences (definition : ScheduleDefinition) (nextOccurrenceAt observedAt : Timestamp) :
    Except ScheduleInputError DueScheduleOccurrences := do
  definition.validate library
  if observedAt < nextOccurrenceAt then
    .ok ⟨[], nextOccurrenceAt⟩
  else
    match definition.missedRunPolicy with
    | .runOnce => do
      let next ← definition.nextAfter library observedAt
      .ok ⟨[nextOccurrenceAt], next⟩
    | .catchUp maximumOccurrences => do
      let limit ← (MissedRunPolicy.catchUp maximumOccurrences).limit
      definition.catchUpLoop library observedAt limit [] nextOccurrenceAt

end ScheduleDefinition

/-! ## Sequences of claims -/

/-- One claim: the persisted cursor it started from, its time and its outcome. -/
structure ScheduleClaim where
  cursor : Timestamp
  observedAt : Timestamp
  outcome : Except ScheduleInputError DueScheduleOccurrences

namespace ScheduleClaim

/-- What the claim hands to the Trigger evaluator. -/
def occurrences (claim : ScheduleClaim) : List Timestamp :=
  match claim.outcome with
  | .ok due => due.occurrences
  | .error _ => []

/-- The cursor persisted after the claim. -/
def nextCursor (claim : ScheduleClaim) : Timestamp :=
  match claim.outcome with
  | .ok due => due.nextOccurrenceAt
  | .error _ => claim.cursor

end ScheduleClaim

section Runs

variable (library : CalendarLibrary) (definition : ScheduleDefinition)

def claimAt (cursor observedAt : Timestamp) : ScheduleClaim where
  cursor := cursor
  observedAt := observedAt
  outcome := definition.dueOccurrences library cursor observedAt

/-- Each claim starts from the cursor its predecessor persisted. -/
def claims (cursor : Timestamp) : List Timestamp → List ScheduleClaim
  | [] => []
  | observedAt :: later =>
    let claim := claimAt library definition cursor observedAt
    claim :: claims claim.nextCursor later

def cursorAfter (cursor : Timestamp) : List Timestamp → Timestamp
  | [] => cursor
  | observedAt :: later =>
    cursorAfter (claimAt library definition cursor observedAt).nextCursor later

/-- All occurrences a sequence of claims returns, in the order of the claims. -/
def returned (cursor : Timestamp) (observations : List Timestamp) : List Timestamp :=
  (claims library definition cursor observations).flatMap ScheduleClaim.occurrences

end Runs

end OctaCity.Trigger
