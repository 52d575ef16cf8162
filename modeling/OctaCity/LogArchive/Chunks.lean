/-
  OctaCity.LogArchive.Chunks

  The chunks of a prepared batch: they take the new non-empty frames apart in
  order, each a run of consecutive frames of one stream.

  Main results: `chunked_addFrames`, and `covered_groups` and `bytes_groups` of
  a prepared batch.
-/
import OctaCity.LogArchive.Frames

namespace OctaCity.LogArchive

open Domain Lib List Runner Store

/-! ## Runs -/

theorem toNat_checkedSucc {sequence next : UInt64} (h : checkedSucc sequence = some next) :
    next.toNat = sequence.toNat + 1 := by
  unfold checkedSucc at h
  split at h
  · rename_i hlt
    cases h
    rw [UInt64.toNat_add]
    exact Nat.mod_eq_of_lt hlt
  · cases h

/-- Frames of one stream, each with the sequence after the one before. -/
def Run (group : List OutputFrame) : Prop :=
  group.IsChain fun a b => checkedSucc a.sequence = some b.sequence ∧ a.stream = b.stream

def position (frame : OutputFrame) : Nat × BuildLogStream := (frame.sequence.toNat, frame.stream)

variable {first frame : OutputFrame} {rest frames group : List OutputFrame}
  {groups : List (List OutputFrame)} {chunks : List (LogChunkManifest × Bytes)}

/-- A run covers the sequences from its first to its last frame. -/
theorem Run.positions (h : Run (first :: rest)) : (first :: rest).map position =
        (List.range' first.sequence.toNat (rest.length + 1)).map (·, first.stream) ∧
      (rest.getLast?.getD first).sequence.toNat = first.sequence.toNat + rest.length := by
  induction rest generalizing first with
  | nil => exact ⟨rfl, rfl⟩
  | cons next rest ih =>
    obtain ⟨⟨hseq, hstr⟩, hrest⟩ := isChain_cons_cons.mp h
    obtain ⟨hposs, hlast⟩ := ih hrest
    have hnext := toNat_checkedSucc hseq
    constructor
    · rw [map_cons, hposs, hnext, ← hstr]
      rfl
    · rw [List.getLast?_cons, Option.getD_some, hlast, hnext, length_cons]
      omega

theorem Run.snoc {pending : List OutputFrame} (h : Run pending)
    (hcontinues : continuesChunk pending frame = true) : Run (pending ++ [frame]) := by
  refine isChain_append.mpr ⟨h, isChain_singleton _, fun previous hprev next hnext => ?_⟩
  cases hnext
  unfold continuesChunk at hcontinues
  rw [Option.mem_def.mp hprev] at hcontinues
  simpa using hcontinues

/-! ## Chunks of runs -/

/-- A finished chunk, and the frames it is made of. -/
structure ChunkOf (events : List AttemptEventEnvelope) (group : List OutputFrame)
    (chunk : LogChunkManifest × Bytes) : Prop where
  run : Run group
  bounds : ∃ first rest, group = first :: rest ∧ chunk.1.stream = first.stream ∧
    chunk.1.firstSequence = first.sequence.toNat ∧
    chunk.1.lastSequence = (rest.getLast?.getD first).sequence.toNat
  bytes : ∃ parts, group.mapM (redactedBytes events) = .ok parts ∧ chunk.2 = parts.flatten
  size : chunk.2.length ≤ maxLogChunkBytes

/-- The chunks and the pending frames are what was added. -/
structure Chunked (events : List AttemptEventEnvelope) (state : ChunkState)
    (added : List OutputFrame) : Prop where
  groups : ∃ groups, List.Forall₂ (ChunkOf events) groups state.chunks ∧
    groups.flatten ++ state.pending = added
  run : Run state.pending

section Chunks

variable {rules : ChunkRules} {events : List AttemptEventEnvelope} {jobId : JobId}

theorem prepareManifest_eq_some {stream : BuildLogStream} {first last : UInt64} {bytes : Bytes}
    {manifest : LogChunkManifest}
    (h : prepareManifest rules jobId stream first last bytes = some manifest) :
    manifest.stream = stream ∧ manifest.firstSequence = first.toNat ∧
      manifest.lastSequence = last.toNat ∧ bytes.length ≤ maxLogChunkBytes := by
  unfold prepareManifest at h
  split at h
  · cases h
  · split at h
    · cases h
    · rename_i hsize
      obtain ⟨⟨chunkId, workId⟩, -, h⟩ := Option.bind_eq_some_iff.mp h
      cases h
      exact ⟨rfl, rfl, rfl, by omega⟩

variable {state state' : ChunkState} {added : List OutputFrame}

section

variable (hchunked : Chunked events state added)

include hchunked

theorem chunked_finishChunk (h : finishChunk rules events jobId state = .ok state') :
    Chunked events state' added := by
  obtain ⟨⟨groups, hgroups, hadded⟩, hrun⟩ := hchunked
  unfold finishChunk at h
  split at h
  · rename_i hpend
    cases h
    exact ⟨⟨groups, hgroups, hadded⟩, hrun⟩
  · rename_i first rest hpend
    obtain ⟨parts, hparts, h⟩ := bind_eq_ok.mp h
    obtain ⟨manifest, hmani, h⟩ := bind_eq_ok.mp h
    cases h
    obtain ⟨hstr, hfirst, hlast, hsize⟩ := prepareManifest_eq_some (okOr_eq_ok.mp hmani)
    have hchunk : ChunkOf events (first :: rest) (manifest, parts.flatten) :=
      ⟨hpend ▸ hrun, ⟨first, rest, rfl, hstr, hfirst, hlast⟩, ⟨parts, hparts, rfl⟩, hsize⟩
    refine ⟨⟨groups ++ [first :: rest], rel_append hgroups (.cons hchunk .nil), ?_⟩,
      isChain_nil⟩
    rw [append_nil, flatten_append, flatten_singleton, ← hpend]
    exact hadded

theorem chunked_addFrame (h : addFrame rules events jobId state frame = .ok state') :
    Chunked events state' (added ++ [frame].filter (!·.bytes.isEmpty)) := by
  unfold addFrame at h
  split at h
  · rename_i hempty
    cases h
    rw [filter_cons_of_neg (by simpa using hempty), filter_nil, append_nil]
    exact hchunked
  · rename_i hempty
    obtain ⟨middle, hmiddle, h⟩ := bind_eq_ok.mp h
    split at h
    · cases h
    · cases h
      -- Either the pending chunk was finished, or the frame goes on with it.
      have hroom : Chunked events middle added ∧ Run (middle.pending ++ [frame]) := by
        unfold makeRoom at hmiddle
        split at hmiddle
        · rw [finishChunk_pending hmiddle]
          exact ⟨chunked_finishChunk hchunked hmiddle, isChain_singleton _⟩
        · rename_i hfits
          cases hmiddle
          refine ⟨hchunked, hchunked.run.snoc ?_⟩
          by_contra hcontinues
          exact hfits (.inl (by simpa using hcontinues))
      obtain ⟨⟨⟨groups, hgroups, hadded⟩, -⟩, hrun⟩ := hroom
      refine ⟨⟨groups, hgroups, ?_⟩, hrun⟩
      rw [filter_cons_of_pos (by simpa using hempty), filter_nil, ← hadded,
        append_assoc]

/-- All frames that are not empty are in the chunks, in their order. -/
theorem chunked_addFrames (h : addFrames rules events jobId frames state = .ok state') :
    ∃ groups, List.Forall₂ (ChunkOf events) groups state'.chunks ∧
      groups.flatten = added ++ frames.filter (!·.bytes.isEmpty) := by
  induction frames generalizing state added with
  | nil =>
    obtain ⟨⟨groups, hgroups, hadded⟩, -⟩ := chunked_finishChunk hchunked h
    rw [finishChunk_pending h, append_nil] at hadded
    exact ⟨groups, hgroups, by rw [hadded, filter_nil, append_nil]⟩
  | cons frame frames ih =>
    obtain ⟨middle, hmiddle, h⟩ := bind_eq_ok.mp h
    obtain ⟨groups, hgroups, hflat⟩ := ih (chunked_addFrame hchunked hmiddle) h
    refine ⟨groups, hgroups, ?_⟩
    rw [hflat, append_assoc, ← filter_append, singleton_append]

end

end Chunks

/-! ## A prepared batch -/

/-- The bytes of a frame as the prepared events hold them. -/
def newBytes (events : List AttemptEventEnvelope) (frame : OutputFrame) : Bytes :=
  (redactedBytes events frame).toOption.getD []

variable {events : List AttemptEventEnvelope}

theorem mapM_redactedBytes
    {parts : List Bytes} (h : group.mapM (redactedBytes events) = .ok parts) :
    parts.flatten = group.flatMap (newBytes events) := by
  have hparts := mapM_eq_ok.mp h
  clear h
  induction hparts with
  | nil => rfl
  | @cons frame part group parts hpart _ ih =>
    have hnew : newBytes events frame = part := by
      rw [newBytes, hpart]
      rfl
    rw [flatten_cons, flatMap_cons, ih, hnew]

theorem ChunkOf.covered {chunk : LogChunkManifest × Bytes} (h : ChunkOf events group chunk) :
    chunk.1.covered = group.map position := by
  obtain ⟨first, rest, rfl, hstr, hfirst, hlast⟩ := h.bounds
  obtain ⟨hposs, hlen⟩ := h.run.positions
  rw [hposs, LogChunkManifest.covered, hstr, hfirst, hlast, hlen]
  exact congrArg (fun count => (List.range' _ count).map _) (by omega)

theorem covered_groups (h : List.Forall₂ (ChunkOf events) groups chunks) :
    chunks.flatMap (·.1.covered) = groups.flatten.map position := by
  induction h with
  | nil => rfl
  | cons hchunk _ ih =>
    rw [flatMap_cons, flatten_cons, map_append, hchunk.covered, ih]

theorem Run.stream (h : Run (first :: rest)) :
    ∀ frame ∈ first :: rest, frame.stream = first.stream := by
  intro frame hmem
  have hpos : position frame ∈ (first :: rest).map position := mem_map_of_mem hmem
  rw [h.positions.1] at hpos
  obtain ⟨_, -, heq⟩ := mem_map.mp hpos
  exact (congrArg Prod.snd heq).symm

/-- The chunks of a stream hold the bytes of its frames. -/
theorem bytes_groups (h : List.Forall₂ (ChunkOf events) groups chunks) (stream : BuildLogStream) :
    (chunks.filter (·.1.stream = stream)).flatMap (·.2) =
      (groups.flatten.filter (·.stream = stream)).flatMap (newBytes events) := by
  induction h with
  | nil => rfl
  | @cons group chunk groups chunks hchunk _ ih =>
    obtain ⟨parts, hparts, hbytes⟩ := hchunk.bytes
    obtain ⟨first, rest, rfl, hstr, -⟩ := hchunk.bounds
    have hall := hchunk.run.stream
    rw [flatten_cons, filter_append, flatMap_append, ← ih]
    by_cases hsame : first.stream = stream
    · have hfilt : (first :: rest).filter (·.stream = stream) = first :: rest :=
        filter_eq_self.mpr fun frame hmem => by simpa using (hall frame hmem).trans hsame
      rw [filter_cons_of_pos (by simpa using hstr.trans hsame), flatMap_cons, hbytes,
        mapM_redactedBytes hparts, hfilt]
    · have hfilt : (first :: rest).filter (·.stream = stream) = [] :=
        filter_eq_nil_iff.mpr fun frame hmem => by simpa using hall frame hmem ▸ hsame
      rw [filter_cons_of_neg (by simpa using hstr ▸ hsame), hfilt]
      rfl

/-- The frames a batch adds to the log: the new ones that are not empty. -/
def newFrames (durableThrough : UInt64) (frames : List OutputFrame) : List OutputFrame :=
  (frames.filter (·.sequence > durableThrough)).filter (!·.bytes.isEmpty)

section Prepared

variable {rules : ChunkRules} {events : List AttemptEventEnvelope} {durableThrough : UInt64}
  {jobId : JobId} {redactor : LogRedactor} {prepared : PreparedLogArchive}

theorem prepared_groups
    (h : prepareLogArchive rules events durableThrough jobId redactor = .ok prepared) :
    ∃ frames frames' groups, RedactedFrames redactor events prepared.events frames frames' ∧
      List.Forall₂ (ChunkOf prepared.events) groups prepared.chunks ∧
      groups.flatten = newFrames durableThrough frames := by
  obtain ⟨frames, frames', hfrms, state, hstate, hchunks⟩ := prepareLogArchive_eq_ok h
  have hstart : Chunked prepared.events ⟨[], 0, []⟩ [] := ⟨⟨[], .nil, rfl⟩, isChain_nil⟩
  obtain ⟨groups, hgroups, hflat⟩ := chunked_addFrames hstart hstate
  exact ⟨frames, frames', groups, hfrms, hchunks ▸ hgroups, hflat⟩

end Prepared

/-- A frame and its redacted one. -/
def Renewed (events : List AttemptEventEnvelope) (frame frame' : OutputFrame) : Prop :=
  SameFrame frame frame' ∧ newBytes events frame = frame'.bytes

/-- The new bytes of a frame are those of its redacted frame. -/
theorem newBytes_eq {frames' : List OutputFrame}
    (hafter : outputFrames 0 events = .ok frames') (hsame : List.Forall₂ SameFrame frames frames') :
    List.Forall₂ (Renewed events) frames frames' := by
  have hbytes : ∀ frame' ∈ frames', ∀ frame, SameFrame frame frame' →
      newBytes events frame = frame'.bytes := by
    intro frame' hmem frame hframe
    obtain ⟨done, rest, rfl⟩ := append_of_mem hmem
    obtain ⟨-, envelope, hget, hframe', -⟩ := outputFrames_set hafter
    have hindex : frame.eventIndex = frame'.eventIndex := by rw [hframe.rest]
    rw [Nat.sub_zero, ← hindex] at hget
    rw [← hindex] at hframe'
    rw [newBytes, redactedBytes, hget, okOr_some]
    show (Except.toOption (outputFrame frame.eventIndex envelope >>= _)).getD [] = _
    rw [hframe']
    rfl
  clear hafter
  induction hsame with
  | nil => exact .nil
  | cons hhead _ ih =>
    exact .cons ⟨hhead, hbytes _ mem_cons_self _ hhead⟩
      (ih fun frame' hmem => hbytes frame' (mem_cons_of_mem _ hmem))

end OctaCity.LogArchive
