/-
  OctaCity.LogArchive.Agreement

  The archiver and the store decide on their own which events are log events and
  which of them are new.  What the one produces the other accepts, except for a
  batch that is too large.
-/
import OctaCity.Agent.PermissionWire
import OctaCity.LogArchive.Chunks
import OctaCity.LogArchive.Protection
import OctaCity.Store.AppendSuccess

namespace OctaCity.LogArchive

open Domain Lib List Runner Store
open Agent (isWhitespace)
open Factory (isControl)

/-! ## Durable events -/

def maxJobEventKindBytes : Nat := 64

/-- `JobEventKind::new` -/
def jobEventKind (value : String) : Option String :=
  if value.isEmpty ∨ value.utf8ByteSize > maxJobEventKindBytes ∨
      value.toList.head?.any isWhitespace ∨ value.toList.getLast?.any isWhitespace ∨
      value.toList.any isControl then
    none
  else some value

/-- What `append_events` makes of a redacted event.  `payload` is its canonical JSON text, if that
is within the bounds of `DurableJobEvent::new`. -/
def durableJobEvent (payload : AttemptEventKind → Option String) (envelope : AttemptEventEnvelope) :
    Option DurableJobEvent :=
  if envelope.streamSequence = 0 then none
  else do
    let occurredAt ← Timestamp.fromUnixMillis envelope.occurredAtUnixMs.toInt
    let kind ← jobEventKind (durableEventKind envelope)
    let text ← payload envelope.kind
    some ⟨envelope.streamSequence.toNat, kind, occurredAt, text⟩

theorem jobEventKind_eq_some {value kind : String} (h : jobEventKind value = some kind) :
    kind = value := by
  unfold jobEventKind at h
  split at h
  · cases h
  · cases h
    rfl

/-- The durable event is the event under its sequence and its classification. -/
def Classified (envelope : AttemptEventEnvelope) (event : DurableJobEvent) : Prop :=
  event.sequence = envelope.streamSequence.toNat ∧ event.kind = durableEventKind envelope

variable {envelope : AttemptEventEnvelope} {event : DurableJobEvent}
  {events : List AttemptEventEnvelope}

theorem durableJobEvent_eq_some {payload : AttemptEventKind → Option String}
    {envelope : AttemptEventEnvelope} {event : DurableJobEvent}
    (h : durableJobEvent payload envelope = some event) :
    Classified envelope event ∧ payload envelope.kind = some event.payload := by
  unfold durableJobEvent at h
  split at h
  · cases h
  · obtain ⟨_, -, h⟩ := Option.bind_eq_some_iff.mp h
    obtain ⟨kind, hkind, h⟩ := Option.bind_eq_some_iff.mp h
    obtain ⟨_, htext, h⟩ := Option.bind_eq_some_iff.mp h
    cases h
    exact ⟨⟨rfl, jobEventKind_eq_some hkind⟩, htext⟩

theorem forall₂_of_mapM {α β : Type} {f : α → Option β} {as : List α} {bs : List β}
    (h : as.mapM f = some bs) : List.Forall₂ (fun a b => f a = some b) as bs := by
  induction as generalizing bs with
  | nil =>
    cases h
    exact .nil
  | cons a as ih =>
    rw [mapM_cons] at h
    obtain ⟨b, hb, h⟩ := Option.bind_eq_some_iff.mp h
    obtain ⟨rest, hrest, h⟩ := Option.bind_eq_some_iff.mp h
    cases h
    exact .cons hb (ih hrest)

/-- The length of an output event's payload. -/
def payloadLength (envelope : AttemptEventEnvelope) : Option Nat :=
  (outputFrame 0 envelope).toOption.bind fun frame => frame.map (·.bytes.length)

theorem isEmpty_eq_of_length {bytes bytes' : Bytes} (h : bytes'.length = bytes.length) :
    bytes'.isEmpty = bytes.isEmpty := by
  cases bytes <;> cases bytes' <;> simp_all

theorem Redacts.kept {envelope' : AttemptEventEnvelope} (h : Redacts envelope envelope') :
    envelope'.streamSequence = envelope.streamSequence ∧
      durableEventKind envelope' = durableEventKind envelope ∧
      payloadLength envelope' = payloadLength envelope := by
  refine ⟨h.streamSequence, ?_⟩
  rcases h with rfl | ⟨-, frame, frame', hframe, hframe', hsame⟩
  · exact ⟨rfl, rfl⟩
  · obtain ⟨event, hkind, -⟩ := outputFrame_eq_some.mp hframe
    obtain ⟨event', hkind', -⟩ := outputFrame_eq_some.mp hframe'
    have hstr : frame'.stream = frame.stream := by rw [hsame.rest]
    constructor
    · simp only [durableEventKind, hframe, hframe', hkind, hkind', hstr,
        isEmpty_eq_of_length hsame.length]
    · simp only [payloadLength, hframe, hframe', Except.toOption, Option.bind_some,
        Option.map_some, hsame.length]

/-! ## The sequences of a request -/

variable {observes : RunnerEvent → Bool} {start sequence : Nat} {frames : List OutputFrame}
  {durableThrough : UInt64} {durable : List DurableJobEvent}

/-- The events of a valid request are numbered one after the other. -/
theorem sequences_of_validateEvents {lease : WireFence} {expected : UInt64}
    (h : validateEvents observes lease expected events = .ok ()) :
    events.map (·.streamSequence.toNat) = List.range' expected.toNat events.length := by
  induction events generalizing expected with
  | nil => rfl
  | cons event events ih =>
    obtain ⟨-, h⟩ := check_eq_ok.mp h
    obtain ⟨hseq, h⟩ := guard_eq_ok.mp h
    obtain ⟨next, hnext, h⟩ := bind_eq_ok.mp h
    rw [map_cons, ih h, not_not.mp hseq, toNat_checkedSucc (okOr_eq_ok.mp hnext)]
    rfl

theorem AppendEventsRequest.sequences
    {request : AppendEventsRequest} (h : request.validate observes = .ok ()) :
    request.events ≠ [] ∧ request.events.length ≤ maxEventBatchRecords ∧
      ∃ first, request.events.map (·.streamSequence.toNat) =
        List.range' first request.events.length := by
  obtain ⟨-, h⟩ := guard_eq_ok.mp h
  obtain ⟨-, h⟩ := check_eq_ok.mp h
  obtain ⟨-, h⟩ := check_eq_ok.mp h
  obtain ⟨-, h⟩ := check_eq_ok.mp h
  split at h
  · cases h
  · rename_i event events hevs
    obtain ⟨hbound, h⟩ := guard_eq_ok.mp h
    exact ⟨by simp [hevs], not_lt.mp hbound, _, sequences_of_validateEvents h⟩

/-- Frames come in the order of their events. -/
theorem sequences_sublist (h : outputFrames start events = .ok frames) :
    (frames.map (·.sequence.toNat)).Sublist (events.map (·.streamSequence.toNat)) := by
  induction events generalizing start frames with
  | nil =>
    cases h
    exact .slnil
  | cons envelope events ih =>
    obtain ⟨head, hhead, h⟩ := bind_eq_ok.mp h
    obtain ⟨rest, hrest, h⟩ := bind_eq_ok.mp h
    cases h
    cases head with
    | none => exact (ih hrest).cons _
    | some frame =>
      obtain ⟨event, -, hframe⟩ := outputFrame_eq_some.mp hhead
      have hseq := (runnerFrame_eq_some.mp hframe).2.2.2.2
      simp only [Option.toList_some, singleton_append, map_cons, hseq]
      exact (ih hrest).cons_cons _

/-! ## What the store expects -/

theorem logStream_streamName {stream : BuildLogStream}
    (h : event.kind = streamName stream) : logStream event = some stream := by
  unfold logStream
  rw [h]
  cases stream <;> rfl

/-- An event is a log event exactly if it has a frame that is not empty. -/
theorem durableEventKind_cases (envelope : AttemptEventEnvelope) :
    (∃ frame, outputFrame 0 envelope = .ok (some frame) ∧ frame.bytes.isEmpty = false ∧
      durableEventKind envelope = streamName frame.stream) ∨
    (∀ frame, outputFrame 0 envelope = .ok (some frame) → frame.bytes.isEmpty = true) ∧
      (durableEventKind envelope = "runner" ∨ durableEventKind envelope = "agent") := by
  unfold durableEventKind
  rcases hframe : outputFrame 0 envelope with fault | frame | frame
  · refine .inr ⟨nofun, ?_⟩
    cases envelope.kind <;> simp
  · refine .inr ⟨nofun, ?_⟩
    cases envelope.kind <;> simp
  · cases hempty : frame.bytes.isEmpty with
    | false => exact .inl ⟨frame, rfl, hempty, by simp [hempty]⟩
    | true =>
      refine .inr ⟨fun other h => ?_, ?_⟩
      · cases h
        exact hempty
      · cases envelope.kind <;> simp [hempty]

theorem logStream_classified {index : Nat} {frame : Option OutputFrame}
    (h : Classified envelope event) (hframe : outputFrame index envelope = .ok frame) :
    ((logStream event).map (event.sequence, ·)).toList =
      (frame.toList.filter (!·.bytes.isEmpty)).map position := by
  obtain ⟨hseq, hkind⟩ := h
  rcases durableEventKind_cases envelope with ⟨found, hfound, hbytes, hname⟩ | ⟨hempty, hname⟩
  · cases hframe.symm.trans (outputFrame_index index hfound)
    have hposition : found.sequence = envelope.streamSequence := by
      obtain ⟨_, -, hrunner⟩ := outputFrame_eq_some.mp hfound
      exact (runnerFrame_eq_some.mp hrunner).2.2.2.2
    rw [logStream_streamName (hkind.trans hname), hseq, ← hposition]
    simp [hbytes, position]
  · have hnone : logStream event = none := by
      unfold logStream
      rcases hname with hname | hname <;> rw [hkind, hname] <;> rfl
    rw [hnone]
    cases frame with
    | none => rfl
    | some frame => simp [hempty _ (outputFrame_index 0 hframe)]

/-- The new log events of the store are the new frames of the archiver. -/
theorem expected_eq (hfrms : outputFrames start events = .ok frames)
    (hclass : List.Forall₂ Classified events durable) :
    (durable.filter fun event => event.sequence > durableThrough.toNat).filterMap
        (fun event => (logStream event).map (event.sequence, ·)) =
      (newFrames durableThrough frames).map position := by
  induction hclass generalizing start frames with
  | nil =>
    cases hfrms
    rfl
  | @cons envelope event events durable hhead _ ih =>
    obtain ⟨head, hhead', h⟩ := bind_eq_ok.mp hfrms
    obtain ⟨rest, hrest, h⟩ := bind_eq_ok.mp h
    cases h
    have hone := logStream_classified hhead hhead'
    have hnew : newFrames durableThrough (head.toList ++ rest) =
        newFrames durableThrough head.toList ++ newFrames durableThrough rest := by
      simp [newFrames]
    have hseq : ∀ frame ∈ head, frame.sequence.toNat = event.sequence := by
      rintro frame rfl
      obtain ⟨_, -, hrunner⟩ := outputFrame_eq_some.mp hhead'
      rw [(runnerFrame_eq_some.mp hrunner).2.2.2.2, hhead.1]
    rw [hnew, map_append, ← ih hrest]
    by_cases hlater : event.sequence > durableThrough.toNat
    · have hkeep : newFrames durableThrough head.toList =
          head.toList.filter (!·.bytes.isEmpty) := by
        refine congrArg (List.filter _) (filter_eq_self.mpr fun frame hmem => ?_)
        have hsame := hseq frame (Option.mem_toList.mp hmem)
        simpa [UInt64.lt_iff_toNat_lt, hsame] using hlater
      rw [hkeep, ← hone, filter_cons_of_pos (by simpa using hlater), filterMap_cons]
      cases (logStream event).map (event.sequence, ·) <;> rfl
    · have hdrop : newFrames durableThrough head.toList = [] := by
        refine congrArg (List.filter _) (filter_eq_nil_iff.mpr fun frame hmem => ?_)
        have hsame := hseq frame (Option.mem_toList.mp hmem)
        simpa [UInt64.lt_iff_toNat_lt, hsame] using hlater
      rw [hdrop, filter_cons_of_neg (by simpa using hlater)]
      rfl

/-! ## The chunks of a batch -/

theorem mem_covered {chunk : LogChunkManifest}
    (hfirst : chunk.firstSequence ≤ sequence) (hlast : sequence ≤ chunk.lastSequence) :
    (sequence, chunk.stream) ∈ chunk.covered := by
  unfold LogChunkManifest.covered
  refine mem_map_of_mem ?_
  rw [mem_range'_1]
  omega

/-- What a prepared batch keeps of its input, and what its chunks are. -/
structure Archives (redactor : LogRedactor) (events : List AttemptEventEnvelope)
    (durableThrough : UInt64) (prepared : PreparedLogArchive) (frames frames' : List OutputFrame) :
    Prop where
  redacted : RedactedFrames redactor events prepared.events frames frames'
  kept : List.Forall₂ (fun envelope envelope' =>
    envelope'.streamSequence = envelope.streamSequence ∧
      durableEventKind envelope' = durableEventKind envelope ∧
      payloadLength envelope' = payloadLength envelope) events prepared.events
  ordered : ∀ chunk ∈ prepared.chunks, chunk.1.firstSequence ≤ chunk.1.lastSequence
  sorted : prepared.chunks.Pairwise fun a b => a.1.lastSequence < b.1.firstSequence
  size : ∀ chunk ∈ prepared.chunks, chunk.2.length ≤ maxLogChunkBytes
  covered : prepared.chunks.flatMap (·.1.covered) = (newFrames durableThrough frames').map position
  bytes : ∀ stream, (prepared.chunks.filter (·.1.stream = stream)).flatMap (·.2) =
    frameBytes stream (newFrames durableThrough frames')

section

variable {frames frames' : List OutputFrame} {events : List AttemptEventEnvelope}
  (h : List.Forall₂ (Renewed events) frames frames')

include h

theorem renewed_newFrames : List.Forall₂ (Renewed events) (newFrames durableThrough frames)
      (newFrames durableThrough frames') := by
  refine rel_filter (fun frame frame' hframe => ?_)
    (rel_filter (fun frame frame' hframe => ?_) h)
  · show (!frame.bytes.isEmpty) = true ↔ (!frame'.bytes.isEmpty) = true
    rw [isEmpty_eq_of_length hframe.1.length]
  · show decide (frame.sequence > _) = true ↔ decide (frame'.sequence > _) = true
    rw [hframe.1.rest]

theorem positions_renewed : frames.map position = frames'.map position := by
  induction h with
  | nil => rfl
  | cons hframe _ ih => rw [map_cons, map_cons, ih, hframe.1.rest, position, position]

theorem bytes_renewed (stream : BuildLogStream) :
    (frames.filter (·.stream = stream)).flatMap (newBytes events) = frameBytes stream frames' := by
  induction h with
  | nil => rfl
  | @cons frame frame' frames frames' hframe _ ih =>
    have hstr : frame'.stream = frame.stream := by rw [hframe.1.rest]
    rw [frameBytes_cons, hstr, ← hframe.2, ← ih]
    by_cases hwanted : frame.stream = stream
    · simp [hwanted]
    · simp [hwanted]

end

section Prepared

variable {rules : ChunkRules} {events : List AttemptEventEnvelope} {durableThrough : UInt64}
  {jobId : JobId} {redactor : LogRedactor} {prepared : PreparedLogArchive} {first : Nat}

/-- New frames of numbered events are numbered upwards. -/
theorem pairwise_newFrames (durableThrough : UInt64)
    (hseqs : events.map (·.streamSequence.toNat) = List.range' first events.length)
    (hfrms : outputFrames 0 events = .ok frames) :
    ((newFrames durableThrough frames).map position).Pairwise fun a b => a.1 < b.1 := by
  have hall : (events.map (·.streamSequence.toNat)).Pairwise (· < ·) := by
    rw [hseqs]
    exact pairwise_lt_range'
  have hfrms := hall.sublist (sequences_sublist hfrms)
  rw [pairwise_map] at hfrms ⊢
  exact hfrms.sublist (filter_sublist.trans filter_sublist)

theorem prepared_archives
    (hseqs : events.map (·.streamSequence.toNat) = List.range' first events.length)
    (h : prepareLogArchive rules events durableThrough jobId redactor = .ok prepared) :
    ∃ frames frames', Archives redactor events durableThrough prepared frames frames' := by
  obtain ⟨frames, frames', groups, hfrms, hgroups, hflat⟩ := prepared_groups h
  have hrenew : List.Forall₂ (Renewed prepared.events) (newFrames durableThrough frames)
      (newFrames durableThrough frames') :=
    renewed_newFrames (newBytes_eq hfrms.after hfrms.sameFrames)
  have hposs := covered_groups hgroups
  rw [hflat] at hposs
  have hord : ∀ chunk ∈ prepared.chunks, chunk.1.firstSequence ≤ chunk.1.lastSequence := by
    intro chunk hchunk
    obtain ⟨group, -, hgroup⟩ := forall₂_exists_left hgroups hchunk
    obtain ⟨frame, rest, rfl, -, hfirst, hlast⟩ := hgroup.bounds
    rw [hfirst, hlast, hgroup.run.positions.2]
    omega
  refine ⟨frames, frames', hfrms, hfrms.sameEvents.imp fun _ _ hevent => hevent.kept, hord,
    ?_, fun chunk hchunk => ?_, hposs.trans (positions_renewed hrenew), fun stream => ?_⟩
  · have hincreasing := pairwise_newFrames durableThrough hseqs hfrms.before
    rw [← hposs, pairwise_flatMap] at hincreasing
    refine hincreasing.2.imp_of_mem fun {a b} ha hb hbelow => ?_
    exact hbelow _ (mem_covered (hord a ha) le_rfl) _ (mem_covered le_rfl (hord b hb))
  · obtain ⟨group, -, hgroup⟩ := forall₂_exists_left hgroups hchunk
    exact hgroup.size
  · rw [bytes_groups hgroups stream, hflat, bytes_renewed hrenew]

/-! ## The checks of the store -/

theorem sequences_redacts {events' : List AttemptEventEnvelope}
    (h : List.Forall₂ Redacts events events') :
    events'.map (·.streamSequence.toNat) = events.map (·.streamSequence.toNat) := by
  rw [← forall₂_eq_eq_eq, forall₂_map_left_iff, forall₂_map_right_iff]
  exact h.flip.imp fun _ _ hevent => congrArg UInt64.toNat (Redacts.streamSequence hevent)

theorem sequences_classified (h : List.Forall₂ Classified events durable) :
    durable.map (·.sequence) = events.map (·.streamSequence.toNat) := by
  rw [← forall₂_eq_eq_eq, forall₂_map_left_iff, forall₂_map_right_iff]
  exact h.flip.imp fun _ _ hevent => hevent.1

theorem isChain_sequences (h : durable.map (·.sequence) = List.range' first durable.length) :
    durable.IsChain fun a b => a.sequence + 1 = b.sequence := by
  have hchain := isChain_range' first durable.length 1
  rw [← h, isChain_map] at hchain
  exact hchain.imp fun _ _ heq => heq.symm

variable {frames frames' : List OutputFrame} {durable : List DurableJobEvent}

section

variable (h : Archives redactor events durableThrough prepared frames frames')

include h

/-- What a chunk covers is new. -/
theorem Archives.exists_frame {chunk : LogChunkManifest × Bytes} (hchunk : chunk ∈ prepared.chunks)
    (hfirst : chunk.1.firstSequence ≤ sequence) (hlast : sequence ≤ chunk.1.lastSequence) :
    durableThrough.toNat < sequence ∧ ∃ frame ∈ frames', frame.sequence.toNat = sequence := by
  have hmem : (sequence, chunk.1.stream) ∈ prepared.chunks.flatMap (·.1.covered) :=
    mem_flatMap.mpr ⟨chunk, hchunk, mem_covered hfirst hlast⟩
  rw [h.covered] at hmem
  obtain ⟨frame, hframe, heq⟩ := mem_map.mp hmem
  obtain ⟨hframe, hnew⟩ := mem_filter.mp (mem_filter.mp hframe).1
  have hlater : durableThrough.toNat < frame.sequence.toNat :=
    UInt64.lt_iff_toNat_lt.mp (of_decide_eq_true hnew)
  have hseq : frame.sequence.toNat = sequence := congrArg Prod.fst heq
  exact ⟨hseq ▸ hlater, frame, hframe, hseq⟩

/-- The chunks cover the new log events and nothing else. -/
theorem Archives.validateNewLogChunks_eq
    (hclass : List.Forall₂ Classified prepared.events durable) :
    validateNewLogChunks durable durableThrough.toNat (prepared.chunks.map (·.1)) = .ok () := by
  have hcov : (prepared.chunks.map (·.1)).flatMap (·.covered) =
      (newFrames durableThrough frames').map position := by
    rw [flatMap_map]
    exact h.covered
  unfold validateNewLogChunks
  rw [expected_eq h.redacted.after hclass, hcov, if_neg, if_neg (not_not.mpr rfl)]
  intro hany
  obtain ⟨_, hmani, hold⟩ := any_eq_true.mp hany
  obtain ⟨chunk, hchunk, rfl⟩ := mem_map.mp hmani
  have hnew := (h.exists_frame hchunk le_rfl (h.ordered chunk hchunk)).1
  have hle : chunk.1.firstSequence ≤ durableThrough.toNat := of_decide_eq_true hold
  omega

variable {request : AppendJobEvents}

/-- The ranges of the chunks, each in the batch and behind the one before. -/
theorem Archives.ranges (hchunks : request.logChunks = prepared.chunks.map (·.1))
    (hinside : ∀ frame ∈ frames', request.firstSequence ≤ frame.sequence.toNat ∧
      frame.sequence.toNat ≤ request.lastSequence) :
    let ranges := request.logChunks.map fun chunk => (chunk.firstSequence, chunk.lastSequence)
    ranges.mergeSort (fun a b => toLex a ≤ toLex b) = ranges ∧
      ranges.any (fun range => range.1 < request.firstSequence ∨ range.2 > request.lastSequence ∨
        range.1 = 0 ∨ range.2 < range.1) = false ∧
      ranges.IsChain fun a b => a.2 < b.1 := by
  intro ranges
  have hsorted : ranges.Pairwise fun a b => a.2 < b.1 := by
    show (request.logChunks.map _).Pairwise _
    rw [hchunks, pairwise_map, pairwise_map]
    exact h.sorted
  have hproper : ∀ range ∈ ranges, request.firstSequence ≤ range.1 ∧ range.1 ≤ range.2 ∧
      range.2 ≤ request.lastSequence ∧ 0 < range.1 := by
    intro range hrange
    obtain ⟨manifest, hmani, rfl⟩ := mem_map.mp hrange
    rw [hchunks] at hmani
    obtain ⟨chunk, hchunk, rfl⟩ := mem_map.mp hmani
    have hord := h.ordered chunk hchunk
    obtain ⟨hnew, frame, hframe, hfirst⟩ := h.exists_frame hchunk le_rfl hord
    obtain ⟨-, last, hlast, hlast'⟩ := h.exists_frame hchunk hord le_rfl
    have hbelow := (hinside frame hframe).1
    have habove := (hinside last hlast).2
    exact ⟨by omega, hord, by omega, by omega⟩
  refine ⟨mergeSort_of_pairwise (hsorted.imp_of_mem fun {a b} ha _ hlt => ?_), ?_,
    hsorted.isChain⟩
  · have hle := (hproper a ha).2.1
    exact decide_eq_true (Prod.Lex.toLex_le_toLex.mpr (.inl (by omega)))
  · rw [any_eq_false]
    intro range hrange
    have := hproper range hrange
    simp
    omega

/-- The batch is refused for its size only. -/
theorem Archives.validate_eq
    (hseqs : events.map (·.streamSequence.toNat) = List.range' first events.length)
    (hne : events ≠ []) (hbound : events.length ≤ maxEventBatchRecords) (core : CoreRules)
    (hchunks : request.logChunks = prepared.chunks.map (·.1))
    (hclass : List.Forall₂ Classified prepared.events request.events) : request.validate core =
      if (request.events.map core.encodedEventBytes).sum > maxJobEventBatchBytes then
        .error (.invalidInput .appendJobEvents .requestTooLarge) else .ok () := by
  have hlen : request.events.length = events.length := by
    rw [← hclass.length_eq, h.redacted.sameEvents.length_eq]
  have hnums := sequences_classified hclass
  rw [sequences_redacts h.redacted.sameEvents, hseqs, ← hlen] at hnums
  have hpos : 0 < request.events.length := by
    rw [hlen]
    exact length_pos_iff.mpr hne
  have hfirst : request.firstSequence = first := by
    unfold AppendJobEvents.firstSequence
    rw [← List.head?_map, hnums, List.head?_range', if_neg (by omega), Option.getD_some]
  have hlast : request.lastSequence = first + request.events.length - 1 := by
    unfold AppendJobEvents.lastSequence
    rw [← List.getLast?_map, hnums, List.getLast?_range', if_neg (by omega), Option.getD_some]
  have hinside : ∀ frame ∈ frames', request.firstSequence ≤ frame.sequence.toNat ∧
      frame.sequence.toNat ≤ request.lastSequence := by
    intro frame hframe
    have hmem := (sequences_sublist h.redacted.after).subset (mem_map_of_mem hframe)
    rw [sequences_redacts h.redacted.sameEvents, hseqs, mem_range'_1] at hmem
    omega
  obtain ⟨hsort, hany, hchain⟩ := h.ranges hchunks hinside
  have hempty : ¬request.events.isEmpty = true := fun hnil => by
    rw [isEmpty_iff.mp hnil] at hpos
    exact absurd hpos (lt_irrefl 0)
  have hmany : ¬request.events.length > maxJobEventBatchSize := by
    rw [hlen]
    exact not_lt.mpr hbound
  unfold AppendJobEvents.validate
  rw [if_neg hempty, if_neg hmany]
  refine if_congr Iff.rfl rfl ?_
  rw [if_neg (not_not.mpr (isChain_sequences hnums)), hsort, if_neg]
  rintro (hwrong | hwrong)
  · rw [hany] at hwrong
    cases hwrong
  · exact hwrong hchain

end

end Prepared

/-- What is prepared of a valid request is accepted by the store, unless the events are too large
    together. -/
theorem archive_accepted {observes : RunnerEvent → Bool} {request : AppendEventsRequest}
    {rules : ChunkRules} {durableThrough : UInt64} {jobId : JobId} {redactor : LogRedactor}
    {prepared : PreparedLogArchive} (hvalid : request.validate observes = .ok ())
    (h : prepareLogArchive rules request.events durableThrough jobId redactor = .ok prepared) :
    (∃ frames frames', Archives redactor request.events durableThrough prepared frames frames') ∧
    ∀ (core : CoreRules) (payload : AttemptEventKind → Option String) (lease : LeaseAccess)
      (acceptedAt : Timestamp) (durable : List DurableJobEvent),
      prepared.events.mapM (durableJobEvent payload) = some durable →
      AppendJobEvents.validate core ⟨lease, durable, prepared.chunks.map (·.1), acceptedAt⟩ =
        (if (durable.map core.encodedEventBytes).sum > maxJobEventBatchBytes then
          .error (.invalidInput .appendJobEvents .requestTooLarge) else .ok ()) ∧
      validateNewLogChunks durable durableThrough.toNat (prepared.chunks.map (·.1)) = .ok () := by
  obtain ⟨hne, hbound, first, hseqs⟩ := AppendEventsRequest.sequences hvalid
  obtain ⟨frames, frames', harchives⟩ := prepared_archives hseqs h
  refine ⟨⟨frames, frames', harchives⟩, fun core payload lease acceptedAt durable hdur => ?_⟩
  have hclass : List.Forall₂ Classified prepared.events durable :=
    (forall₂_of_mapM hdur).imp fun _ _ hevent => (durableJobEvent_eq_some hevent).1
  exact ⟨harchives.validate_eq hseqs hne hbound core rfl hclass,
    harchives.validateNewLogChunks_eq hclass⟩

/-! ## Samples -/

/-- A batch without output stays as it is. -/
theorem prepareLogArchive_silent {events : List AttemptEventEnvelope}
    (h : ∀ envelope ∈ events, ∀ index, outputFrame index envelope = .ok none) (rules : ChunkRules)
    (durableThrough : UInt64) (jobId : JobId) :
    prepareLogArchive rules events durableThrough jobId ⟨[]⟩ = .ok ⟨events, []⟩ := by
  have hfrms : ∀ start, outputFrames start events = .ok [] := by
    induction events with
    | nil => exact fun _ => rfl
    | cons envelope events ih =>
      intro start
      rw [outputFrames, h envelope mem_cons_self]
      show (outputFrames (start + 1) events >>= _) = _
      rw [ih fun other hother => h other (mem_cons_of_mem _ hother)]
      rfl
  rw [prepareLogArchive, hfrms]
  rfl

namespace Sample

def fence : WireFence where
  leaseId := "00000000-0000-0000-0000-000000000002"
  jobId := "00000000-0000-0000-0000-000000000001"
  attempt := 1
  fencingToken := String.ofList (List.replicate 64 '1')

def request (events : List AttemptEventEnvelope) : AppendEventsRequest :=
  ⟨1, "append-1", "registration-1", fence, events⟩

/-- Output of both streams: one line is durable already, one is empty. -/
def lines : List AttemptEventEnvelope :=
  [line 1 "old", line 2 "built", output "stderr" 3 "", output "stderr" 4 "pw"]

def password : LogRedactor := ⟨[⟨stringBytes "pw", by decide⟩]⟩

/-- The digests and identities of the chunks of `lines`. -/
def chunkRules : ChunkRules where
  digest bytes :=
    if bytes = stringBytes "built" then
      "586a866f990ab55e36decfffc2011f172e4452d5141c939a5436baffba11111d"
    else "983987033f0e117011e531dc33ad9bb15290bba41a414d830fb5cbdbcda2ff17"
  identities _ stream _ _ _ :=
    if stream = .stdout then
      some (⟨0x8c82f21e384a579d8d3506f809ca4d3d⟩, ⟨0xbf62cc9aa60456a59a5782164b629d73⟩)
    else some (⟨0x4e185e2c47075065b9b1c3eb4fb2ba23⟩, ⟨0x9996995daff65fc98d38f3f9d3303ffa⟩)
  chunkIdText id :=
    if id = ⟨0x8c82f21e384a579d8d3506f809ca4d3d⟩ then "8c82f21e-384a-579d-8d35-06f809ca4d3d"
    else "4e185e2c-4707-5065-b9b1-c3eb4fb2ba23"

def doubled : Nat → String
  | 0 => "x"
  | n + 1 => doubled n ++ doubled n

/-- An event with a note of 128 KiB. -/
def note (sequence : Nat) : AttemptEventEnvelope :=
  { line (UInt64.ofNat sequence) "" with
    kind := .runner {
      schemaVersion := 4
      sequence := UInt64.ofNat sequence
      timestamp := "2026-09-24T00:00:00Z"
      category := "execution"
      data := [("note", .string (doubled 17))] } }

def notes : List AttemptEventEnvelope := (List.range' 1 65).map note

/-- The canonical text of a note, or of a line of output. -/
def dataText (data : Fields) : Option String :=
  match data with
  | [(_, .string text)] => some ("\"note\":\"" ++ text ++ "\"")
  | [_, (_, .string stream), (_, .object [_, (_, .string text)])] =>
    some ("\"payload\":\x7b\"data\":\"" ++ text ++ "\",\"format\":\"line\"\x7d,\"stream\":\"" ++ stream ++
      "\",\"type\":\"output\"")
  | _ => none

/-- The canonical text of an event with such data. -/
def payload : AttemptEventKind → Option String
  | .runner event => (dataText event.data).map fun text =>
    "\x7b\"event\":\x7b\"category\":\"" ++ event.category ++ "\",\"data\":\x7b" ++ text ++
      "\x7d,\"schema_version\":4,\"sequence\":" ++ toString event.sequence.toNat ++
      ",\"timestamp\":\"" ++ event.timestamp ++ "\"\x7d,\"source\":\"runner\"\x7d"
  | .agent _ => none

/-- The length of an event as JSON. -/
def core : CoreRules :=
  { StoreState.Sample.acceptAll with
    encodedEventBytes event := ("[" ++ toString event.sequence ++ ",\"" ++ event.kind ++ "\"," ++
      toString event.occurredAt.unixMillis ++ "," ++ event.payload ++ "]").utf8ByteSize }

end Sample

theorem size_doubled (n : Nat) : (Sample.doubled n).utf8ByteSize = 2 ^ n := by
  induction n with
  | zero => rfl
  | succ n ih =>
    rw [Sample.doubled, String.utf8ByteSize_append, ih]
    omega

/-- The events of a valid request of 65 notes are too large for one batch of the store. -/
theorem large_batch_refused : (Sample.request Sample.notes).validate (fun _ => false) = .ok () ∧
    ∃ prepared durable, prepareLogArchive Sample.chunkRules Sample.notes 0 ⟨1⟩ ⟨[]⟩ = .ok prepared ∧
      prepared.events.mapM (durableJobEvent Sample.payload) = some durable ∧
      AppendJobEvents.validate Sample.core ⟨⟨⟨1⟩, ⟨1⟩, ⟨1⟩, 1⟩, durable,
        prepared.chunks.map (·.1), StoreState.Sample.instant 1⟩ =
          .error (.invalidInput .appendJobEvents .requestTooLarge) := by
  have hvalid : (Sample.request Sample.notes).validate (fun _ => false) = .ok () := by
    decide +kernel
  have hsilent : ∀ envelope ∈ Sample.notes, ∀ index, outputFrame index envelope = .ok none := by
    intro envelope hmem index
    obtain ⟨sequence, -, rfl⟩ := mem_map.mp hmem
    rfl
  have hprepd := prepareLogArchive_silent hsilent Sample.chunkRules 0 ⟨1⟩
  have hsome : (Sample.notes.mapM (durableJobEvent Sample.payload)).isSome = true := by
    decide +kernel
  obtain ⟨durable, hdur⟩ := Option.isSome_iff_exists.mp hsome
  have hevs := forall₂_of_mapM hdur
  have hsize : ∀ event ∈ durable, 2 ^ 17 ≤ Sample.core.encodedEventBytes event := by
    intro event hmem
    obtain ⟨envelope, hnote, hevent⟩ := forall₂_exists_left hevs hmem
    obtain ⟨sequence, -, rfl⟩ := mem_map.mp hnote
    have htext := Option.some.inj (durableJobEvent_eq_some hevent).2
    have hdoubled := size_doubled 17
    simp only [Sample.core, ← htext, String.utf8ByteSize_append]
    omega
  have hlarge : (durable.map Sample.core.encodedEventBytes).sum > maxJobEventBatchBytes := by
    have hsum := card_nsmul_le_sum (durable.map Sample.core.encodedEventBytes) (2 ^ 17)
      fun size hmem => by
        obtain ⟨event, hevent, rfl⟩ := mem_map.mp hmem
        exact hsize event hevent
    rw [length_map, ← hevs.length_eq, show Sample.notes.length = 65 from rfl] at hsum
    exact lt_of_lt_of_le (by decide) hsum
  obtain ⟨hne, hbound, first, hseqs⟩ := AppendEventsRequest.sequences hvalid
  obtain ⟨frames, frames', harchives⟩ := prepared_archives hseqs hprepd
  refine ⟨hvalid, _, durable, hprepd, hdur, ?_⟩
  rw [harchives.validate_eq hseqs hne hbound Sample.core rfl
    (hevs.imp fun _ _ hevent => (durableJobEvent_eq_some hevent).1), if_pos hlarge]

/-- What is new of two streams is archived in a chunk each, and accepted. -/
theorem archive_accepted_line : ∃ prepared frames frames' durable,
    prepareLogArchive Sample.chunkRules Sample.lines 1 ⟨1⟩ Sample.password = .ok prepared ∧
      prepared.chunks.map (fun chunk => (chunk.1.stream, chunk.1.covered, chunk.2)) =
        [(.stdout, [(2, .stdout)], stringBytes "built"),
          (.stderr, [(4, .stderr)], stringBytes "**")] ∧
      Archives Sample.password Sample.lines 1 prepared frames frames' ∧
      prepared.events.mapM (durableJobEvent Sample.payload) = some durable ∧
      AppendJobEvents.validate Sample.core ⟨⟨⟨1⟩, ⟨1⟩, ⟨1⟩, 1⟩, durable,
        prepared.chunks.map (·.1), StoreState.Sample.instant 1⟩ = .ok () ∧
      validateNewLogChunks durable 1 (prepared.chunks.map (·.1)) = .ok () := by
  have hvalid : (Sample.request Sample.lines).validate (fun _ => false) = .ok () := by decide
  have hchunks : ((prepareLogArchive Sample.chunkRules Sample.lines 1 ⟨1⟩
      Sample.password).toOption.map fun prepared =>
        prepared.chunks.map fun chunk => (chunk.1.stream, chunk.1.covered, chunk.2)) =
      some [(.stdout, [(2, .stdout)], stringBytes "built"),
        (.stderr, [(4, .stderr)], stringBytes "**")] := by
    decide +kernel
  have hres : ((prepareLogArchive Sample.chunkRules Sample.lines 1 ⟨1⟩
      Sample.password).toOption.bind fun prepared =>
        (prepared.events.mapM (durableJobEvent Sample.payload)).map fun durable =>
          (durable.map Sample.core.encodedEventBytes).sum) = some 870 := by
    decide +kernel
  obtain ⟨prepared, hprepd, hres⟩ := Option.bind_eq_some_iff.mp hres
  obtain ⟨durable, hdur, hbytes⟩ := Option.map_eq_some_iff.mp hres
  rw [hprepd, Option.map_some, Option.some.injEq] at hchunks
  have hprepd := toOption_eq_some.mp hprepd
  obtain ⟨⟨frames, frames', harchives⟩, hacc⟩ := archive_accepted hvalid hprepd
  obtain ⟨hvalidate, hnew⟩ := hacc Sample.core Sample.payload ⟨⟨1⟩, ⟨1⟩, ⟨1⟩, 1⟩
    (StoreState.Sample.instant 1) durable hdur
  rw [hbytes, if_neg (by decide)] at hvalidate
  exact ⟨prepared, frames, frames', durable, hprepd, hchunks, harchives, hdur, hvalidate, hnew⟩

end OctaCity.LogArchive
