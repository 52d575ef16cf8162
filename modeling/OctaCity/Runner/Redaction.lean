/-
  OctaCity.Runner.Redaction

  The runner-supervisor boundary: every event is redacted before it is emitted,
  and console output is held back while it may still start a protected value.
  JSON documents are ordered field lists.  Base64 and the JSON encoder are
  parameters, and so is the memory the allocator has given to a matcher, which
  only decides when pressure is relieved.  A `panic` of the code is a fault.
-/
import Mathlib.Data.Prod.Lex
import Mathlib.Data.String.Basic
import OctaCity.Lib.Table
import OctaCity.Runner.RedactionStream

namespace OctaCity.Runner

open Lib

/-! ## Events -/

inductive Number
  | posInt (value : UInt64)
  | negInt (value : Int64)
  | float (bits : UInt64)

inductive Json
  | null
  | bool (value : Bool)
  | number (value : Number)
  | string (text : String)
  | array (items : List Json)
  | object (fields : List (String × Json))

namespace Json

def asStr : Json → Option String
  | .string text => some text
  | _ => none

def asU64 : Json → Option UInt64
  | .number (.posInt value) => some value
  | _ => none

def asObject : Json → Option (List (String × Json))
  | .object fields => some fields
  | _ => none

end Json

abbrev Fields := List (String × Json)

namespace Fields

def get (fields : Fields) (name : String) : Option Json :=
  (fields.find? fun field => field.1 = name).map Prod.snd

def str (fields : Fields) (name : String) : Option String := (get fields name).bind Json.asStr

def u64 (fields : Fields) (name : String) : Option UInt64 := (get fields name).bind Json.asU64

def object (fields : Fields) (name : String) : Option Fields :=
  (get fields name).bind Json.asObject

/-- Replaces the value of a name, or adds it. -/
def insert : Fields → String → Json → Fields
  | [], name, value => [(name, value)]
  | field :: fields, name, value =>
    if field.1 = name then (name, value) :: fields else field :: insert fields name value

end Fields

/-- Minimal event header retained before category-specific data reaches the server. -/
structure RunnerEvent where
  schemaVersion : UInt16
  sequence : UInt64
  timestamp : String
  category : String
  data : Fields

/-- The identity of one console stream, ordered as its fields are. -/
structure StreamKey where
  runId : UInt64
  stepId : Option UInt64
  commandId : String
  stream : String
  deriving DecidableEq

def StreamKey.sortKey (key : StreamKey) : Nat ×ₗ WithBot Nat ×ₗ String ×ₗ String :=
  toLex (key.runId.toNat, toLex ((key.stepId.map UInt64.toNat : Option Nat),
    toLex (key.commandId, key.stream)))

theorem StreamKey.sortKey_injective : Function.Injective StreamKey.sortKey := by
  rintro ⟨run, step, command, stream⟩ ⟨run', step', command', stream'⟩ h
  obtain ⟨hrun, h⟩ := Prod.mk.inj h
  obtain ⟨hstep, h⟩ := Prod.mk.inj h
  obtain ⟨hcommand, hstr⟩ := Prod.mk.inj h
  have hrun' : run = run' := UInt64.toNat.inj hrun
  have hstep' : step = step' := Option.map_injective (fun _ _ => UInt64.toNat.inj) hstep
  have hcommand' : command = command' := hcommand
  have hstr' : stream = stream' := hstr
  rw [hrun', hstep', hcommand', hstr']

instance : LinearOrder StreamKey :=
  LinearOrder.lift' StreamKey.sortKey StreamKey.sortKey_injective

inductive OutputFormat
  | bytes
  | rawBytes
  | line
  deriving DecidableEq

def OutputFormat.name : OutputFormat → String
  | .bytes => "bytes"
  | .rawBytes => "raw_bytes"
  | .line => "line"

/-- Base64 and the length of an event's JSON encoding. -/
structure Codec where
  encode : Bytes → String
  decode : String → Option Bytes
  wireBytes : RunnerEvent → Option Nat

/-- Why an operation fails: a protocol error, or a panic. -/
inductive RedactionFault
  | protocol (message : String)
  /-- An index past the end of a pattern, a table, the history or the queue. -/
  | index
  /-- An unsigned subtraction below zero. -/
  | underflow
  /-- Text that is no longer UTF-8 after a replacement. -/
  | utf8
  /-- An output event without its payload object. -/
  | payload
  deriving DecidableEq

def orFault {α : Type} (fault : RedactionFault) : Option α → Except RedactionFault α
  | some value => .ok value
  | none => .error fault

/-! ## Redaction of one document -/

/-- `finder.find`: where the first occurrence begins. -/
def findNeedle (needle : Bytes) : Bytes → Option Nat
  | [] => if needle.isEmpty then some 0 else none
  | byte :: rest =>
    if needle.isPrefixOf (byte :: rest) then some 0 else (findNeedle needle rest).map (· + 1)

/-- Replaces the occurrences from left to right; each round consumes one. -/
def replaceNeedle (needle : Bytes) : Nat → Bytes → Bytes
  | 0, bytes => bytes
  | fuel + 1, bytes =>
    match findNeedle needle bytes with
    | none => bytes
    | some position =>
      bytes.take position ++ marker needle.length ++
        replaceNeedle needle fuel (bytes.drop (position + needle.length))

def redactBytes (bytes : Bytes) (values : List Bytes) : Bytes :=
  values.foldl (fun bytes needle => replaceNeedle needle bytes.length bytes) bytes

def stringBytes (text : String) : Bytes := text.toUTF8.data.toList

def stringFromUtf8 (bytes : Bytes) : Option String := String.fromUTF8? ⟨bytes.toArray⟩

def redactString (values : List Bytes) (text : String) : Option String :=
  stringFromUtf8 (redactBytes (stringBytes text) values)

section Documents

variable (codec : Codec) (values : List Bytes)

/-- The redacted base64 text of a document that says it holds bytes. -/
def redactedData (fields : Fields) : Option String := do
  let format ← Fields.str fields "format"
  if format = "bytes" ∨ format = "raw_bytes" then do
    let encoded ← Fields.str fields "data"
    let bytes ← codec.decode encoded
    some (codec.encode (redactBytes bytes values))
  else none

mutual

def redactValue : Json → Except RedactionFault Json
  | .string text => do
    let text ← orFault .utf8 (redactString values text)
    .ok (.string text)
  | .array items => do
    let items ← redactItems items
    .ok (.array items)
  | .object fields => do
    let fields ← redactFields (redactedData codec values fields) fields
    .ok (.object fields)
  | .null => .ok .null
  | .bool value => .ok (.bool value)
  | .number value => .ok (.number value)

def redactItems : List Json → Except RedactionFault (List Json)
  | [] => .ok []
  | item :: items => do
    let item ← redactValue item
    let items ← redactItems items
    .ok (item :: items)

/-- Redacts every value of a document, `data` in its redacted encoding. -/
def redactFields (data : Option String) : Fields → Except RedactionFault Fields
  | [] => .ok []
  | (name, value) :: fields =>
    match if name = "data" then data else none with
    | some encoded => do
      let text ← orFault .utf8 (redactString values encoded)
      let fields ← redactFields data fields
      .ok ((name, .string text) :: fields)
    | none => do
      let value ← redactValue value
      let fields ← redactFields data fields
      .ok ((name, value) :: fields)

end

def redactMap (fields : Fields) : Except RedactionFault Fields :=
  redactFields codec values (redactedData codec values fields) fields

/-! ## Output events -/

def OutputFormat.ofName (name : String) : Option OutputFormat :=
  if name = "bytes" then some .bytes
  else if name = "raw_bytes" then some .rawBytes
  else if name = "line" then some .line
  else none

def payloadBytes (format : OutputFormat) (data : String) : Option Bytes :=
  match format with
  | .bytes | .rawBytes => codec.decode data
  | .line => some (stringBytes data)

def payloadText (format : OutputFormat) (bytes : Bytes) : Except RedactionFault String :=
  match format with
  | .bytes | .rawBytes => .ok (codec.encode bytes)
  | .line => orFault .utf8 (stringFromUtf8 bytes)

def streamKey (event : RunnerEvent) : Option StreamKey := do
  let runId ← Fields.u64 event.data "run_id"
  let commandId ← Fields.str event.data "command_id"
  let stream ← Fields.str event.data "stream"
  some ⟨runId, Fields.u64 event.data "step_id", commandId, stream⟩

/-- Stream, format and bytes of a console output event. -/
def outputPayload (event : RunnerEvent) : Option (StreamKey × OutputFormat × Bytes) := do
  let kind ← Fields.str event.data "type"
  if kind ≠ "output" then none else do
    let payload ← Fields.object event.data "payload"
    let format ← (Fields.str payload "format").bind OutputFormat.ofName
    let data ← Fields.str payload "data"
    let bytes ← payloadBytes codec format data
    let key ← streamKey event
    some (key, format, bytes)

/-- Writes the payload of an output event. -/
def setOutputData (event : RunnerEvent) (bytes : Bytes) (format : OutputFormat) :
    Except RedactionFault RunnerEvent := do
  let payload ← orFault .payload (Fields.object event.data "payload")
  let data ← payloadText codec format bytes
  let payload := Fields.insert payload "format" (.string format.name)
  let payload := Fields.insert payload "data" (.string data)
  .ok { event with data := Fields.insert event.data "payload" (.object payload) }

def eventWireBytes (event : RunnerEvent) : Except RedactionFault Nat :=
  orFault (.protocol "cannot size event during redaction") (codec.wireBytes event)

/-- Streams a boundary event ends: those of one step, or of the whole run. -/
def boundaryOf (event : RunnerEvent) : Option (UInt64 × Option UInt64) := do
  let runId ← Fields.u64 event.data "run_id"
  let kind ← Fields.str event.data "type"
  if kind = "step_finished" then
    some (runId, (Fields.object event.data "step").bind fun step => Fields.u64 step "id")
  else if kind = "run_finished" then some (runId, none)
  else none

def endsStream (boundary : UInt64 × Option UInt64) (key : StreamKey) : Bool :=
  key.runId = boundary.1 && boundary.2.all fun stepId => key.stepId = some stepId

end Documents

/-! ## The queue -/

def maxRedactionStreams : Nat := 64

def maxRedactionPendingBytes : Nat := 16 * 1024 * 1024

structure PendingEvent where
  event : RunnerEvent
  bytes : Nat

abbrev Streams := Table (Prod.fst : StreamKey × RedactionStream → StreamKey)

/-- In-memory values that must not cross the runner-supervisor boundary, and the
    events held back for them. -/
structure RunnerRedactions where
  values : List Bytes
  prefixTables : List (List Nat)
  streams : Streams
  pending : List PendingEvent
  pendingBytes : Nat

/-- `u8::is_ascii_whitespace` -/
def isAsciiWhitespace (byte : UInt8) : Bool :=
  byte = 9 || byte = 10 || byte = 12 || byte = 13 || byte = 32

def trimAscii (value : Bytes) : Bytes :=
  ((value.dropWhile isAsciiWhitespace).reverse.dropWhile isAsciiWhitespace).reverse

/-- The non-empty values with their trimmed forms, sorted and once each. -/
def sensitiveValues (values : List Bytes) : List Bytes :=
  let selected := (values.filter fun value => !value.isEmpty).flatMap fun value =>
    let trimmed := trimAscii value
    if !trimmed.isEmpty ∧ trimmed ≠ value then [value, trimmed] else [value]
  (selected.insertionSort fun left right => left.map UInt8.toNat ≤ right.map UInt8.toNat).dedup

namespace RunnerRedactions

/-- Longer values come first, so that no contained prefix hides a longer value. -/
def new (values : List Bytes) : Option RunnerRedactions := do
  let values := (sensitiveValues values).insertionSort fun left right => right.length ≤ left.length
  let prefixTables ← values.mapM prefixTable
  some ⟨values, prefixTables, Table.empty, [], 0⟩

/-- Bytes the allocator has given to each matcher, at the three points of one
    event at which they are counted. -/
abbrev Allocation := Nat → StreamKey → RedactionStream → Nat

def totalBytes (state : RunnerRedactions) (allocated : StreamKey → RedactionStream → Nat) : Nat :=
  state.pendingBytes + (state.streams.rows.map fun (key, stream) => allocated key stream).sum

def checkedSub (left right : Nat) : Except RedactionFault Nat :=
  if right ≤ left then .ok (left - right) else .error .underflow

/-- Pops events from the front and takes their bytes off the count. -/
def popEvents : Nat → List PendingEvent → Nat →
    Except RedactionFault (List RunnerEvent × List PendingEvent × Nat)
  | 0, pending, total => .ok ([], pending, total)
  | _ + 1, [], _ => .error (.protocol "redaction queue became inconsistent")
  | count + 1, entry :: pending, total => do
    let total ← checkedSub total entry.bytes
    let (events, rest) ← popEvents count pending total
    .ok (entry.event :: events, rest)

def shiftAnchor (count : Nat) (row : StreamKey × RedactionStream) : StreamKey × RedactionStream :=
  (row.1, { row.2 with anchor := row.2.anchor - count })

theorem shiftAnchor_key (count : Nat) (row : StreamKey × RedactionStream) :
    (shiftAnchor count row).1 = row.1 := rfl

def shiftAnchors (streams : Streams) (count : Nat) : Except RedactionFault Streams :=
  if ∀ row ∈ streams.rows, count ≤ row.2.anchor then
    .ok (streams.mapRows (shiftAnchor count) (shiftAnchor_key count))
  else .error .underflow

/-- Releases the events no stream still holds on to. -/
def releaseResolved (state : RunnerRedactions) :
    Except RedactionFault (List RunnerEvent × RunnerRedactions) := do
  let count := (state.streams.rows.map fun (_, stream) => stream.anchor).min?.getD
    state.pending.length
  let (emitted, pending, pendingBytes) ← popEvents count state.pending state.pendingBytes
  let streams ← shiftAnchors state.streams count
  .ok (emitted, { state with
    streams := streams
    pending := pending
    pendingBytes := pendingBytes })

section Queue

variable (codec : Codec)

/-- Replaces a queued event and counts its bytes anew. -/
def refreshEventSize (state : RunnerRedactions) (index : Nat) (event : RunnerEvent) :
    Except RedactionFault RunnerRedactions := do
  let entry ← orFault .index state.pending[index]?
  let bytes ← eventWireBytes codec event
  let rest ← checkedSub state.pendingBytes entry.bytes
  .ok { state with
    pending := state.pending.set index ⟨event, bytes⟩
    pendingBytes := rest + bytes }

def setOutput (state : RunnerRedactions) (index : Nat) (bytes : Bytes) (format : OutputFormat) :
    Except RedactionFault RunnerRedactions := do
  let entry ← orFault .index state.pending[index]?
  let event ← setOutputData codec entry.event bytes format
  state.refreshEventSize codec index event

def appendOutputData (state : RunnerRedactions) (index : Nat) (suffix : Bytes) :
    Except RedactionFault RunnerRedactions := do
  let entry ← orFault .index state.pending[index]?
  let (_, format, bytes) ← orFault (.protocol "redaction anchor is not an output event")
    (outputPayload codec entry.event)
  state.setOutput codec index (bytes ++ suffix) format

def redactEvent (state : RunnerRedactions) (index : Nat) :
    Except RedactionFault RunnerRedactions := do
  let entry ← orFault .index state.pending[index]?
  let data ← redactMap codec state.values entry.event.data
  state.refreshEventSize codec index { entry.event with data := data }

/-- Attaches what a dropped matcher still held to its last event. -/
def attachTail (state : RunnerRedactions) (anchor : Nat) (bytes : Bytes) :
    Except RedactionFault RunnerRedactions :=
  if bytes.isEmpty then .ok state
  else do
    let state ← state.appendOutputData codec anchor bytes
    state.redactEvent codec anchor

def flushKey (state : RunnerRedactions) (key : StreamKey) :
    Except RedactionFault RunnerRedactions :=
  match state.streams.find? key with
  | some (_, stream) =>
    attachTail codec { state with streams := state.streams.erase key } stream.anchor stream.finish
  | none => .ok state

def flushKeys (state : RunnerRedactions) (keys : List StreamKey) :
    Except RedactionFault RunnerRedactions :=
  keys.foldlM (flushKey codec) state

def maskKey (state : RunnerRedactions) (key : StreamKey) :
    Except RedactionFault RunnerRedactions :=
  match state.streams.find? key with
  | some (_, stream) => do
    let bytes ← orFault .index (stream.finishMasked state.values state.prefixTables)
    attachTail codec { state with streams := state.streams.erase key } stream.anchor bytes
  | none => .ok state

def keys (state : RunnerRedactions) : List StreamKey := state.streams.rows.map Prod.fst

/-- Masks every tail that is held back, and releases. -/
def relievePressure (state : RunnerRedactions) :
    Except RedactionFault (List RunnerEvent × RunnerRedactions) := do
  let state ← state.keys.foldlM (maskKey codec) state
  state.releaseResolved

/-- `events` relieves pressure when a bound is reached. -/
def relieveIf (state : RunnerRedactions) (reached : Bool) :
    Except RedactionFault (List RunnerEvent × RunnerRedactions) :=
  if reached then state.relievePressure codec else .ok ([], state)

def pushEvent (state : RunnerRedactions) (event : RunnerEvent) (bytes : Nat) : RunnerRedactions :=
  { state with
    pending := state.pending ++ [⟨event, bytes⟩]
    pendingBytes := state.pendingBytes + bytes }

/-- The matcher of a stream, or a new one, anchored at the current event. -/
def streamFor (state : RunnerRedactions) (index : Nat) (key : StreamKey) : RedactionStream :=
  match state.streams.find? key with
  | some (_, stream) => { stream with anchor := index }
  | none => RedactionStream.new index state.values.length

/-- A chunk of a stream: its matcher stays only while bytes are pending. -/
def pushChunk (state : RunnerRedactions) (index : Nat) (key : StreamKey) (format : OutputFormat)
    (bytes : Bytes) : Except RedactionFault RunnerRedactions := do
  let (bytes, stream) ← orFault .index
    ((state.streamFor index key).push state.values state.prefixTables bytes)
  let streams := if stream.pending.isEmpty then state.streams.erase key
    else state.streams.put (key, stream)
  { state with streams := streams }.setOutput codec index bytes format

/-- A line ends its stream, and becomes bytes if the stream still held some. -/
def pushLine (state : RunnerRedactions) (index : Nat) (key : StreamKey) (bytes : Bytes) :
    Except RedactionFault RunnerRedactions :=
  match state.streams.find? key with
  | some (_, stream) => do
    let (bytes, stream) ← orFault .index (stream.push state.values state.prefixTables bytes)
    { state with streams := state.streams.erase key }.setOutput codec index
      (bytes ++ stream.finish ++ [10]) .bytes
  | none => .ok state

def pushOutput (state : RunnerRedactions) (index : Nat) :
    Option (StreamKey × OutputFormat × Bytes) → Except RedactionFault RunnerRedactions
  | some (key, .line, bytes) => state.pushLine codec index key bytes
  | some (key, format, bytes) => state.pushChunk codec index key format bytes
  | none => .ok state

def flushForBoundary (state : RunnerRedactions) (index : Nat) :
    Except RedactionFault RunnerRedactions := do
  let entry ← orFault .index state.pending[index]?
  match boundaryOf entry.event with
  | some boundary => state.flushKeys codec (state.keys.filter (endsStream boundary))
  | none => .ok state

/-- No matcher is left for a new stream. -/
def streamsFull (state : RunnerRedactions) : Option (StreamKey × OutputFormat × Bytes) → Bool
  | some (key, _) =>
    !state.streams.contains key && state.streams.size == maxRedactionStreams
  | none => false

def makeRoom (state : RunnerRedactions) (event : RunnerEvent) (allocated : Allocation) :
    Except RedactionFault (List RunnerEvent × RunnerRedactions × Nat) := do
  let (released, state) ← state.releaseResolved
  let (relieved, state) ← state.relieveIf codec (state.streamsFull (outputPayload codec event))
  let eventBytes ← eventWireBytes codec event
  let (relieved', state) ← state.relieveIf codec
    (maxRedactionPendingBytes < state.totalBytes (allocated 0) + eventBytes)
  .ok (released ++ relieved ++ relieved', state, eventBytes)

/-- Queues an event and redacts it. -/
def enqueue (state : RunnerRedactions) (event : RunnerEvent) (eventBytes : Nat) :
    Except RedactionFault RunnerRedactions := do
  let state := state.pushEvent event eventBytes
  let index := state.pending.length - 1
  let state ← state.pushOutput codec index (outputPayload codec event)
  let state ← state.redactEvent codec index
  state.flushForBoundary codec index

/-- Redacts one event and returns every event whose output is now resolved. -/
def events (state : RunnerRedactions) (event : RunnerEvent) (allocated : Allocation) :
    Except RedactionFault (List RunnerEvent × RunnerRedactions) := do
  let (admitted, state, eventBytes) ← state.makeRoom codec event allocated
  let state ← state.enqueue codec event eventBytes
  let (relieved, state) ← state.relieveIf codec
    (maxRedactionPendingBytes < state.totalBytes (allocated 1))
  if maxRedactionPendingBytes < state.totalBytes (allocated 2) then
    .error (.protocol "redaction pending byte count exceeds the bounded supervisor limit")
  else do
    let (released, state) ← state.releaseResolved
    .ok (admitted ++ relieved ++ released, state)

/-- Flushes every tail when the runner reaches its terminal message. -/
def finishEvents (state : RunnerRedactions) :
    Except RedactionFault (List RunnerEvent × RunnerRedactions) := do
  let state ← state.flushKeys codec state.keys
  state.releaseResolved

/-- The events of one run, each with the allocations made during it. -/
def runEvents (state : RunnerRedactions) :
    List (RunnerEvent × Allocation) → Except RedactionFault (List RunnerEvent × RunnerRedactions)
  | [] => .ok ([], state)
  | (event, allocated) :: rest => do
    let (emitted, state) ← state.events codec event allocated
    let (later, state) ← runEvents state rest
    .ok (emitted ++ later, state)

/-- A whole run: its events and the final flush. -/
def run (state : RunnerRedactions) (inputs : List (RunnerEvent × Allocation)) :
    Except RedactionFault (List RunnerEvent × RunnerRedactions) := do
  let (emitted, state) ← state.runEvents codec inputs
  let (flushed, state) ← state.finishEvents codec
  .ok (emitted ++ flushed, state)

end Queue

end RunnerRedactions

end OctaCity.Runner
