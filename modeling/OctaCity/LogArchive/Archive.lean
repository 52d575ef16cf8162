/-
  OctaCity.LogArchive.Archive

  One append of attempt events (`coordinator/validation.rs`, `log_archive.rs`):
  the request's own checks, the redaction of its two output streams, and the
  chunks of what is new.  An index outside of a list or of a text, which
  panics, is the fault `panic`.
-/
import OctaCity.Factory.Permission
import OctaCity.LogArchive.Redactor
import OctaCity.Store.Lease

namespace OctaCity.LogArchive

open Domain Lib Runner Store
open Factory (isControl)

/-! ## Envelopes -/

inductive JobLifecycleState
  | preparing
  | running
  | freezing
  | uploading
  | cleaning
  | completing

structure ResourceUsageSnapshot where
  observedAtUnixMs : UInt64
  elapsedMs : UInt64
  cpuTimeMs : UInt64
  memoryCurrentBytes : UInt64
  memoryPeakBytes : UInt64
  diskCurrentBytes : UInt64
  diskPeakBytes : UInt64
  ioReadBytes : UInt64
  ioWrittenBytes : UInt64
  networkReceivedBytes : Option UInt64
  networkTransmittedBytes : Option UInt64

inductive AgentLifecycleEvent
  | stateChanged (state : JobLifecycleState)
  | resourceUsage (usage : ResourceUsageSnapshot)
  | accountingUnavailable (consecutiveFailures : Nat)

inductive AttemptEventKind
  | runner (event : RunnerEvent)
  | agent (event : AgentLifecycleEvent)

/-- Durable, globally ordered envelope for one fenced attempt. -/
structure AttemptEventEnvelope where
  jobId : String
  attempt : UInt32
  leaseId : String
  fencingToken : String
  streamSequence : UInt64
  occurredAtUnixMs : Int64
  kind : AttemptEventKind

/-- The values that fence a job attempt on the coordinator wire. -/
structure WireFence where
  leaseId : String
  jobId : String
  attempt : UInt32
  fencingToken : String

structure AppendEventsRequest where
  protocolVersion : UInt16
  requestId : String
  registrationId : String
  lease : WireFence
  events : List AttemptEventEnvelope

/-! ## Validation of the request -/

def coordinatorProtocolVersion : UInt16 := 1
def maxCoordinatorIdentifierBytes : Nat := 256
def maxEventBatchRecords : Nat := 256

def identifier (name value : String) : Except String Unit :=
  if value.isEmpty ∨ value.utf8ByteSize > maxCoordinatorIdentifierBytes ∨ value.toList.any isControl then
    .error s!"{name} must contain 1 to {maxCoordinatorIdentifierBytes} bytes without control characters"
  else .ok ()

def WireFence.validate (fence : WireFence) : Except String Unit := do
  identifier "lease_id" fence.leaseId
  identifier "job_id" fence.jobId
  identifier "fencing_token" fence.fencingToken
  if fence.attempt = 0 then .error "lease attempt must be greater than zero" else .ok ()

def ResourceUsageSnapshot.validate (usage : ResourceUsageSnapshot) : Except String Unit :=
  if usage.observedAtUnixMs = 0 then
    .error "resource sample timestamp must be greater than zero"
  else if usage.memoryCurrentBytes > usage.memoryPeakBytes ∨
      usage.diskCurrentBytes > usage.diskPeakBytes then
    .error "current resource usage must not exceed its recorded peak"
  else .ok ()

/-- The event has a public operation observation, well formed or not. -/
def claimsObservation (event : RunnerEvent) : Bool :=
  ((Fields.object event.data "progress").bind fun progress =>
    Fields.get progress "observation").isSome

/-- `observes` is `public_operation_observation().is_some()`, which parses a document of its own. -/
def AttemptEventKind.validate (observes : RunnerEvent → Bool) : AttemptEventKind → Except String Unit
  | .runner event =>
    if event.schemaVersion = 0 ∨ event.sequence = 0 ∨ event.timestamp.isEmpty ∨
        event.category.isEmpty then
      .error "runner event header is invalid"
    else if claimsObservation event ∧ !observes event then
      .error "public operation observation is invalid"
    else .ok ()
  | .agent (.resourceUsage usage) => usage.validate
  | .agent (.accountingUnavailable consecutiveFailures) =>
    if consecutiveFailures = 0 then .error "accounting failure count must be greater than zero"
    else .ok ()
  | .agent (.stateChanged _) => .ok ()

def AttemptEventEnvelope.validate (observes : RunnerEvent → Bool) (envelope : AttemptEventEnvelope)
    (expected : WireFence) : Except String Unit := do
  expected.validate
  if envelope.jobId ≠ expected.jobId ∨ envelope.attempt ≠ expected.attempt ∨
      envelope.leaseId ≠ expected.leaseId ∨ envelope.fencingToken ≠ expected.fencingToken then
    .error "event does not match its lease fence"
  else if envelope.streamSequence = 0 then
    .error "event stream_sequence must be greater than zero"
  else envelope.kind.validate observes

/-- `checked_add(1)` -/
def checkedSucc (sequence : UInt64) : Option UInt64 :=
  if sequence.toNat + 1 < UInt64.size then some (sequence + 1) else none

/-- The sequences go on from the expected one. -/
def validateEvents (observes : RunnerEvent → Bool) (lease : WireFence) :
    UInt64 → List AttemptEventEnvelope → Except String Unit
  | _, [] => .ok ()
  | expected, event :: events => do
    event.validate observes lease
    if event.streamSequence ≠ expected then
      .error "event batch stream_sequence values must be contiguous"
    else do
      let expected ← okOr (checkedSucc expected) "event sequence overflowed"
      validateEvents observes lease expected events

def AppendEventsRequest.validate (observes : RunnerEvent → Bool) (request : AppendEventsRequest) :
    Except String Unit :=
  if request.protocolVersion ≠ coordinatorProtocolVersion then
    .error "unsupported coordinator protocol version"
  else do
    identifier "request_id" request.requestId
    identifier "registration_id" request.registrationId
    request.lease.validate
    match request.events with
    | [] => .error "event batch size is outside the protocol bounds"
    | event :: _ =>
      if request.events.length > maxEventBatchRecords then
        .error "event batch size is outside the protocol bounds"
      else validateEvents observes request.lease event.streamSequence request.events

/-! ## Output frames -/

inductive ArchiveFault
  | invalidRequest
  | panic

structure OutputFrame where
  eventIndex : Nat
  sequence : UInt64
  stream : BuildLogStream
  format : OutputFormat
  bytes : Bytes

def streamName : BuildLogStream → String
  | .stdout => "stdout"
  | .stderr => "stderr"

def streamOfName (name : String) : Option BuildLogStream :=
  if name = "stdout" then some .stdout else if name = "stderr" then some .stderr else none

/-- Stream, format and bytes of an event of type `output`. -/
def runnerFrame (index : Nat) (sequence : UInt64) (event : RunnerEvent) :
    Except ArchiveFault (Option OutputFrame) :=
  if Fields.str event.data "type" ≠ some "output" then .ok none
  else do
    let stream ← okOr ((Fields.str event.data "stream").bind streamOfName) .invalidRequest
    let payload ← okOr (Fields.object event.data "payload") .invalidRequest
    let format ← okOr ((Fields.str payload "format").bind OutputFormat.ofName) .invalidRequest
    let data ← okOr (Fields.str payload "data") .invalidRequest
    let bytes ← okOr (payloadBytes standard format data) .invalidRequest
    .ok (some ⟨index, sequence, stream, format, bytes⟩)

def outputFrame (index : Nat) (envelope : AttemptEventEnvelope) :
    Except ArchiveFault (Option OutputFrame) :=
  match envelope.kind with
  | .agent _ => .ok none
  | .runner event => runnerFrame index envelope.streamSequence event

/-- The frames of the events from this index on. -/
def outputFrames : Nat → List AttemptEventEnvelope → Except ArchiveFault (List OutputFrame)
  | _, [] => .ok []
  | index, envelope :: envelopes => do
    let frame ← outputFrame index envelope
    let frames ← outputFrames (index + 1) envelopes
    .ok (frame.toList ++ frames)

def durableEventKind (envelope : AttemptEventEnvelope) : String :=
  let other := match envelope.kind with
    | .runner _ => "runner"
    | .agent _ => "agent"
  match outputFrame 0 envelope with
  | .ok (some frame) => if frame.bytes.isEmpty then other else streamName frame.stream
  | _ => other

def outputText (format : OutputFormat) (bytes : Bytes) : Option String :=
  match format with
  | .bytes | .rawBytes => some (encodeBytes bytes)
  | .line => stringFromUtf8 bytes

def setOutputBytes (envelope : AttemptEventEnvelope) (format : OutputFormat) (bytes : Bytes) :
    Except ArchiveFault AttemptEventEnvelope :=
  match envelope.kind with
  | .agent _ => .error .invalidRequest
  | .runner event => do
    let payload ← okOr (Fields.object event.data "payload") .invalidRequest
    let data ← okOr (outputText format bytes) .invalidRequest
    let payload := Fields.insert payload "data" (.string data)
    .ok { envelope with
      kind := .runner { event with data := Fields.insert event.data "payload" (.object payload) } }

/-- `&bytes[first..last]` -/
def slice (bytes : Bytes) (first last : Nat) : Except ArchiveFault Bytes :=
  if first ≤ last ∧ last ≤ bytes.length then .ok ((bytes.drop first).take (last - first))
  else .error .panic

/-- Cuts the redacted bytes into the frames again. -/
def writeFrames (combined : Bytes) :
    List OutputFrame → Nat → List AttemptEventEnvelope →
      Except ArchiveFault (List AttemptEventEnvelope)
  | [], _, events => .ok events
  | frame :: frames, offset, events => do
    let last := offset + frame.bytes.length
    let envelope ← okOr events[frame.eventIndex]? .panic
    let bytes ← slice combined offset last
    let envelope ← setOutputBytes envelope frame.format bytes
    writeFrames combined frames last (events.set frame.eventIndex envelope)

def redactStreamFrames (events : List AttemptEventEnvelope) (frames : List OutputFrame)
    (redactor : LogRedactor) : Except ArchiveFault (List AttemptEventEnvelope) := do
  let combined ← okOr (redactor.redact (frames.flatMap (·.bytes))) .panic
  writeFrames combined frames 0 events

/-! ## Chunks -/

def maxLogChunkBytes : Nat := 256 * 1024

/-- SHA-256 and the identities derived from it, with their texts. -/
structure ChunkRules where
  digest : Bytes → String
  identities : JobId → BuildLogStream → UInt64 → UInt64 → String →
    Option (LogChunkId × LogIndexingWorkId)
  chunkIdText : LogChunkId → String

/-- `LogChunkManifest::prepare` -/
def prepareManifest (rules : ChunkRules) (jobId : JobId) (stream : BuildLogStream)
    (firstSequence lastSequence : UInt64) (bytes : Bytes) : Option LogChunkManifest :=
  if firstSequence = 0 ∨ lastSequence < firstSequence then none
  else if bytes.isEmpty ∨ bytes.length > maxLogChunkBytes then none
  else do
    let digest := rules.digest bytes
    let (chunkId, workId) ← rules.identities jobId stream firstSequence lastSequence digest
    some {
      chunkId := chunkId
      stream := stream
      firstSequence := firstSequence.toNat
      lastSequence := lastSequence.toNat
      objectIdentity := "log-chunk:v1:" ++ rules.chunkIdText chunkId ++ ":" ++ digest
      byteLength := bytes.length
      digest := digest
      indexingWorkId := workId }

/-- The frames that wait for the end of their chunk, and the chunks that are finished. -/
structure ChunkState where
  pending : List OutputFrame
  pendingBytes : Nat
  chunks : List (LogChunkManifest × Bytes)

section Chunks

variable (rules : ChunkRules) (events : List AttemptEventEnvelope) (jobId : JobId)

/-- The bytes of a frame after redaction. -/
def redactedBytes (frame : OutputFrame) : Except ArchiveFault Bytes := do
  let envelope ← okOr events[frame.eventIndex]? .panic
  let redacted ← outputFrame frame.eventIndex envelope
  let redacted ← okOr redacted .invalidRequest
  .ok redacted.bytes

def finishChunk (state : ChunkState) : Except ArchiveFault ChunkState :=
  match state.pending with
  | [] => .ok state
  | first :: rest => do
    let last := rest.getLast?.getD first
    let parts ← (first :: rest).mapM (redactedBytes events)
    let bytes := parts.flatten
    let manifest ← okOr (prepareManifest rules jobId first.stream first.sequence last.sequence bytes)
      .invalidRequest
    .ok ⟨[], 0, state.chunks ++ [(manifest, bytes)]⟩

/-- The frame follows the last pending one of the same stream. -/
def continuesChunk (pending : List OutputFrame) (frame : OutputFrame) : Bool :=
  match pending.getLast? with
  | none => false
  | some previous =>
    checkedSucc previous.sequence = some frame.sequence ∧ previous.stream = frame.stream

/-- The pending chunk is finished when the frame is not part of it. -/
def makeRoom (state : ChunkState) (frame : OutputFrame) : Except ArchiveFault ChunkState :=
  if !continuesChunk state.pending frame ∨
      state.pendingBytes + frame.bytes.length > maxLogChunkBytes then
    finishChunk rules events jobId state
  else .ok state

def addFrame (state : ChunkState) (frame : OutputFrame) : Except ArchiveFault ChunkState :=
  if frame.bytes.isEmpty then .ok state
  else do
    let state ← makeRoom rules events jobId state frame
    if frame.bytes.length > maxLogChunkBytes then .error .invalidRequest
    else
      .ok { state with
        pending := state.pending ++ [frame]
        pendingBytes := state.pendingBytes + frame.bytes.length }

def addFrames : List OutputFrame → ChunkState → Except ArchiveFault ChunkState
  | [], state => finishChunk rules events jobId state
  | frame :: frames, state => do
    let state ← addFrame rules events jobId state frame
    addFrames frames state

end Chunks

structure PreparedLogArchive where
  events : List AttemptEventEnvelope
  chunks : List (LogChunkManifest × Bytes)

def prepareLogArchive (rules : ChunkRules) (events : List AttemptEventEnvelope)
    (durableThrough : UInt64) (jobId : JobId) (redactor : LogRedactor) :
    Except ArchiveFault PreparedLogArchive := do
  let frames ← outputFrames 0 events
  let events ← redactStreamFrames events (frames.filter (·.stream = .stdout)) redactor
  let events ← redactStreamFrames events (frames.filter (·.stream = .stderr)) redactor
  let state ← addFrames rules events jobId (frames.filter (·.sequence > durableThrough)) ⟨[], 0, []⟩
  .ok ⟨events, state.chunks⟩

end OctaCity.LogArchive
