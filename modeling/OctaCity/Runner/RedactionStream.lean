/-
  OctaCity.Runner.RedactionStream

  The streaming matcher that removes protected values from one console stream.
  It keeps the bytes that may still start a protected value, one automaton per
  value, and for each kept byte the automaton states after it, so that a match
  can be taken back.  Indexing past the end of a pattern, a table or the
  history is `none`.
-/
import OctaCity.Lib.PrefixAutomaton
import OctaCity.Lib.Result

namespace OctaCity.Runner

open Lib

abbrev Bytes := List UInt8

/-- `b"[redacted]"` -/
def redactionMarker : Bytes := [91, 114, 101, 100, 97, 99, 116, 101, 100, 93]

/-- `b'*'` -/
def starByte : UInt8 := 42

/-- `b"#"` -/
def fallbackMarker : Bytes := [35]

/-- What `append_marker` appends for a removed value. -/
def marker (removedBytes : Nat) : Bytes :=
  if removedBytes < redactionMarker.length then List.replicate removedBytes starByte
  else redactionMarker

/-- The matcher of one stream.  `stateHistory` holds one row of states for each
    pending byte, and `baseStates` the row of the last released byte. -/
structure RedactionStream where
  anchor : Nat
  pending : Bytes
  stateHistory : List (List Nat)
  baseStates : List Nat
  states : List Nat

def advanceStates : List Nat → UInt8 → List Bytes → List (List Nat) → Option (List Nat)
  | state :: states, byte, value :: values, table :: tables => do
    let state ← advancePrefix state byte value table
    let states ← advanceStates states byte values tables
    some (state :: states)
  | states, _, _, _ => some states

/-- The first automaton that has read its whole value, as its state. -/
def completed (states : List Nat) (values : List Bytes) : Option Nat :=
  ((states.zip values).find? fun (state, value) => state = value.length).map Prod.fst

namespace RedactionStream

def new (anchor patternCount : Nat) : RedactionStream where
  anchor := anchor
  pending := []
  stateHistory := []
  baseStates := List.replicate patternCount 0
  states := List.replicate patternCount 0

variable (values : List Bytes) (prefixTables : List (List Nat))

def pushByte (stream : RedactionStream) (byte : UInt8) : Option RedactionStream := do
  let states ← advanceStates stream.states byte values prefixTables
  some { stream with
    pending := stream.pending ++ [byte]
    stateHistory := stream.stateHistory ++ [states]
    states := states }

/-- Takes the last `matchedBytes` bytes back, or all that are still pending. -/
def removeMatch (stream : RedactionStream) (matchedBytes : Nat) : Option RedactionStream :=
  let pending := stream.pending.take (stream.pending.length - matchedBytes)
  let history := stream.stateHistory.take (stream.stateHistory.length - matchedBytes)
  if pending.isEmpty then
    some { stream with pending := pending, stateHistory := history, states := stream.baseStates }
  else do
    let states ← history.getLast?
    some { stream with pending := pending, stateHistory := history, states := states }

def markerIsSafe : List Nat → Bytes → Option Bool
  | _, [] => some true
  | states, byte :: rest => do
    let states ← advanceStates states byte values prefixTables
    if (completed states values).isSome then some false else markerIsSafe states rest

/-- The preferred marker, the fallback, or nothing: an empty replacement is always
    safe as long as the automata keep their states. -/
def safeMarker (states : List Nat) (removedBytes : Nat) : Option Bytes := do
  if ← markerIsSafe values prefixTables states (marker removedBytes) then
    some (marker removedBytes)
  else if ← markerIsSafe values prefixTables states fallbackMarker then
    some fallbackMarker
  else some []

def appendSafeMarker (stream : RedactionStream) (removedBytes : Nat) : Option RedactionStream := do
  let candidate ← safeMarker values prefixTables stream.states removedBytes
  candidate.foldlM (pushByte values prefixTables) stream

/-- Releases pending bytes from the front while more than `retained` are left. -/
def releaseWhile (retained : Nat) :
    Bytes → List (List Nat) → List Nat → Option (Bytes × Bytes × List (List Nat) × List Nat)
  | [], history, base => some ([], [], history, base)
  | byte :: pending, history, base =>
    if retained < pending.length + 1 then
      match history with
      | [] => none
      | row :: history => do
        let (output, rest) ← releaseWhile retained pending history row
        some (byte :: output, rest)
    else some ([], byte :: pending, history, base)

/-- Releases what no automaton can still need, and returns it. -/
def releaseSafePrefix (stream : RedactionStream) : Option (Bytes × RedactionStream) := do
  let (output, pending, history, base) ← releaseWhile (stream.states.max?.getD 0)
    stream.pending stream.stateHistory stream.baseStates
  some (output, { stream with
    pending := pending
    stateHistory := history
    baseStates := base })

/-- Takes a completed value back and appends a marker in its place. -/
def replaceMatch (stream : RedactionStream) : Option RedactionStream :=
  match completed stream.states values with
  | some matched => do
    let stream ← stream.removeMatch matched
    stream.appendSafeMarker values prefixTables matched
  | none => some stream

/-- One byte of a chunk: match, replace and release. -/
def pushOne (stream : RedactionStream) (byte : UInt8) : Option (Bytes × RedactionStream) := do
  let stream ← stream.pushByte values prefixTables byte
  let stream ← stream.replaceMatch values prefixTables
  stream.releaseSafePrefix

/-- Feeds one chunk and returns the bytes it releases. -/
def push (stream : RedactionStream) : Bytes → Option (Bytes × RedactionStream)
  | [] => some ([], stream)
  | byte :: rest => do
    let (output, stream) ← stream.pushOne values prefixTables byte
    let (outputs, stream) ← push stream rest
    some (output ++ outputs, stream)

/-- The pending bytes as they are; the caller drops the matcher. -/
def finish (stream : RedactionStream) : Bytes := stream.pending

/-- The matcher with its pending bytes replaced by a marker. -/
def masked (stream : RedactionStream) : Option RedactionStream := do
  let removed := stream.pending.length
  let stream ← stream.removeMatch removed
  stream.appendSafeMarker values prefixTables removed

/-- A marker instead of the pending bytes; the caller drops the matcher. -/
def finishMasked (stream : RedactionStream) : Option Bytes := do
  let stream ← stream.masked values prefixTables
  some stream.finish

/-- Some automaton has read the start of its value. -/
def isLive (stream : RedactionStream) : Bool :=
  stream.states.any fun state => 0 < state

end RedactionStream

end OctaCity.Runner
