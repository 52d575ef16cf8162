/-
  OctaCity.LogArchive.Frames

  What redaction does to the frames of a batch: the bytes of each stream are
  those of the redacted stream, cut at the same places, and nothing else moves.
-/
import OctaCity.LogArchive.Archive

namespace OctaCity.LogArchive

open Domain Lib Runner Store Fields

/-! ## One event -/

variable {index offset : Nat} {frame : OutputFrame} {envelope envelope' : AttemptEventEnvelope}
  {bytes combined : Bytes} {events events' : List AttemptEventEnvelope}
  {done frames : List OutputFrame} {stream : BuildLogStream} {redactor : LogRedactor}

/-- An output event with a decodable payload is a frame. -/
theorem runnerFrame_eq_some {sequence : UInt64} {event : RunnerEvent} :
    runnerFrame index sequence event = .ok (some frame) ↔
      str event.data "type" = some "output" ∧
      (str event.data "stream").bind streamOfName = some frame.stream ∧
      (∃ payload, object event.data "payload" = some payload ∧
        (str payload "format").bind OutputFormat.ofName = some frame.format ∧
        ∃ data, str payload "data" = some data ∧
          payloadBytes standard frame.format data = some frame.bytes) ∧
      frame.eventIndex = index ∧ frame.sequence = sequence := by
  unfold runnerFrame
  by_cases htype : str event.data "type" = some "output"
  · rw [if_neg (not_not.mpr htype)]
    constructor
    · intro h
      obtain ⟨stream, hstr, h⟩ := bind_eq_ok.mp h
      obtain ⟨payload, hpay, h⟩ := bind_eq_ok.mp h
      obtain ⟨format, hfmt, h⟩ := bind_eq_ok.mp h
      obtain ⟨data, hdata, h⟩ := bind_eq_ok.mp h
      obtain ⟨bytes, hbytes, h⟩ := bind_eq_ok.mp h
      cases h
      exact ⟨htype, okOr_eq_ok.mp hstr, ⟨payload, okOr_eq_ok.mp hpay,
        okOr_eq_ok.mp hfmt, data, okOr_eq_ok.mp hdata, okOr_eq_ok.mp hbytes⟩, rfl, rfl⟩
    · rintro ⟨-, hstr, ⟨payload, hpay, hfmt, data, hdata, hbytes⟩, rfl, rfl⟩
      rw [hstr, okOr_some, hpay, okOr_some]
      show (okOr _ _ >>= _) = _
      rw [hfmt, okOr_some]
      show (okOr _ _ >>= _) = _
      rw [hdata, okOr_some]
      show (okOr _ _ >>= _) = _
      rw [hbytes]
      rfl
  · rw [if_pos htype]
    constructor
    · intro h
      cases h
    · rintro ⟨htype', -⟩
      exact absurd htype' htype

theorem outputFrame_eq_some :
    outputFrame index envelope = .ok (some frame) ↔ ∃ event, envelope.kind = .runner event ∧
      runnerFrame index envelope.streamSequence event = .ok (some frame) := by
  unfold outputFrame
  cases hkind : envelope.kind with
  | runner event => simp
  | agent event => simp

/-- The same event under another index. -/
theorem outputFrame_index (other : Nat) (h : outputFrame index envelope = .ok (some frame)) :
    outputFrame other envelope = .ok (some { frame with eventIndex := other }) := by
  obtain ⟨event, hkind, hframe⟩ := outputFrame_eq_some.mp h
  obtain ⟨htype, hstr, hpay, -, hseq⟩ := runnerFrame_eq_some.mp hframe
  exact outputFrame_eq_some.mpr
    ⟨event, hkind, runnerFrame_eq_some.mpr ⟨htype, hstr, hpay, rfl, hseq⟩⟩

theorem payloadBytes_outputText {format : OutputFormat} {data : String}
    (h : outputText format bytes = some data) : payloadBytes standard format data = some bytes := by
  cases format with
  | line => exact congrArg some (stringBytes_of_fromUtf8 h)
  | bytes =>
    cases h
    exact standard_lawful.decode_encode bytes
  | rawBytes =>
    cases h
    exact standard_lawful.decode_encode bytes

/-- Writing an event's payload changes the bytes of its frame. -/
theorem outputFrame_setOutputBytes (h : outputFrame index envelope = .ok (some frame))
    (hset : setOutputBytes envelope frame.format bytes = .ok envelope') :
    outputFrame index envelope' = .ok (some { frame with bytes := bytes }) ∧
      envelope'.streamSequence = envelope.streamSequence := by
  obtain ⟨event, hkind, hframe⟩ := outputFrame_eq_some.mp h
  obtain ⟨htype, hstr, ⟨payload, hpay, hfmt, -, -, -⟩, hindex, hseq⟩ :=
    runnerFrame_eq_some.mp hframe
  rw [setOutputBytes, hkind] at hset
  dsimp only at hset
  rw [hpay, okOr_some] at hset
  obtain ⟨data, hdata, hset⟩ := bind_eq_ok.mp (show okOr _ _ >>= _ = _ from hset)
  cases hset
  have hother : ∀ name value, name ≠ "payload" →
      get (insert event.data "payload" value) name = get event.data name := by
    intro name value hname
    rw [get_insert, if_neg (Ne.symm hname)]
  refine ⟨outputFrame_eq_some.mpr ⟨_, rfl, runnerFrame_eq_some.mpr ⟨?_, ?_,
    ⟨insert payload "data" (.string data), ?_, ?_, data, ?_,
      payloadBytes_outputText (okOr_eq_ok.mp hdata)⟩, hindex, hseq⟩⟩, rfl⟩
  · unfold str at htype ⊢
    rw [hother _ _ (by decide)]
    exact htype
  · unfold str at hstr ⊢
    rw [hother _ _ (by decide)]
    exact hstr
  · unfold object
    rw [get_insert, if_pos rfl]
    rfl
  · unfold str at hfmt ⊢
    rw [get_insert, if_neg (by decide)]
    exact hfmt
  · unfold str
    rw [get_insert, if_pos rfl]
    rfl

/-- Only the bytes of the frame differ, not their number. -/
structure SameFrame (frame frame' : OutputFrame) : Prop where
  rest : frame' = { frame with bytes := frame'.bytes }
  length : frame'.bytes.length = frame.bytes.length

theorem SameFrame.refl (frame : OutputFrame) : SameFrame frame frame := ⟨rfl, rfl⟩

theorem SameFrame.trans {frame' frame'' : OutputFrame} (h : SameFrame frame frame')
    (h' : SameFrame frame' frame'') : SameFrame frame frame'' := by
  refine ⟨?_, h'.length.trans h.length⟩
  rw [h'.rest, h.rest]

/-- The event is the same up to the bytes of its frame. -/
def Redacts (envelope envelope' : AttemptEventEnvelope) : Prop :=
  envelope' = envelope ∨ envelope'.streamSequence = envelope.streamSequence ∧
    ∃ frame frame', outputFrame 0 envelope = .ok (some frame) ∧
      outputFrame 0 envelope' = .ok (some frame') ∧ SameFrame frame frame'

theorem Redacts.refl (envelope : AttemptEventEnvelope) : Redacts envelope envelope := .inl rfl

theorem Redacts.trans {envelope'' : AttemptEventEnvelope}
    (h : Redacts envelope envelope') (h' : Redacts envelope' envelope'') :
    Redacts envelope envelope'' := by
  rcases h with rfl | ⟨hseq, frame, frame', hframe, hframe', hsame⟩
  · exact h'
  · rcases h' with rfl | ⟨hseq', middle, frame'', hmiddle, hframe'', hsame'⟩
    · exact .inr ⟨hseq, frame, frame', hframe, hframe', hsame⟩
    · cases hframe'.symm.trans hmiddle
      exact .inr ⟨hseq'.trans hseq, frame, frame'', hframe, hframe'',
        hsame.trans hsame'⟩

theorem Redacts.streamSequence
    (h : Redacts envelope envelope') : envelope'.streamSequence = envelope.streamSequence := by
  rcases h with rfl | ⟨hseq, -⟩
  · rfl
  · exact hseq

/-! ## All events -/

/-- The event of one of the frames, and what replacing it does. -/
theorem outputFrames_set {start : Nat} {rest : List OutputFrame}
    (h : outputFrames start events = .ok (done ++ frame :: rest)) :
    start ≤ frame.eventIndex ∧ ∃ envelope, events[frame.eventIndex - start]? = some envelope ∧
      outputFrame frame.eventIndex envelope = .ok (some frame) ∧
      ∀ envelope' frame', outputFrame frame.eventIndex envelope' = .ok (some frame') →
        outputFrames start (events.set (frame.eventIndex - start) envelope') =
          .ok (done ++ frame' :: rest) := by
  induction events generalizing start done with
  | nil =>
    have hnil := Except.ok.inj h
    exact absurd hnil.symm (by simp)
  | cons envelope events ih =>
    rw [outputFrames] at h
    obtain ⟨head, hhead, h⟩ := bind_eq_ok.mp h
    obtain ⟨frames, hfrms, h⟩ := bind_eq_ok.mp h
    have hlist := Except.ok.inj h
    -- The frame is of a later event.
    have hlater : ∀ before, done = head.toList ++ before → frames = before ++ frame :: rest →
        start ≤ frame.eventIndex ∧ ∃ envelope₁,
          (envelope :: events)[frame.eventIndex - start]? = some envelope₁ ∧
          outputFrame frame.eventIndex envelope₁ = .ok (some frame) ∧
          ∀ envelope' frame', outputFrame frame.eventIndex envelope' = .ok (some frame') →
            outputFrames start ((envelope :: events).set (frame.eventIndex - start) envelope') =
              .ok (done ++ frame' :: rest) := by
      rintro before rfl rfl
      obtain ⟨hstart, envelope₁, hget, hframe, hset⟩ := ih hfrms
      have hindex : frame.eventIndex - start = (frame.eventIndex - (start + 1)) + 1 := by omega
      refine ⟨by omega, envelope₁, ?_, hframe, fun envelope' frame' hframe' => ?_⟩
      · rw [hindex, List.getElem?_cons_succ]
        exact hget
      · rw [hindex, List.set_cons_succ, outputFrames, hhead]
        show (outputFrames (start + 1) _ >>= _) = _
        rw [hset envelope' frame' hframe', List.append_assoc]
        rfl
    cases head with
    | none => exact hlater done rfl hlist
    | some first =>
      cases done with
      | cons first' before =>
        obtain ⟨rfl, hrest⟩ := List.cons.inj hlist
        exact hlater before rfl hrest
      | nil =>
        obtain ⟨rfl, rfl⟩ := List.cons.inj hlist
        have hindex : first.eventIndex = start := by
          obtain ⟨event, -, hframe⟩ := outputFrame_eq_some.mp hhead
          exact (runnerFrame_eq_some.mp hframe).2.2.2.1
        refine ⟨Nat.le_of_eq hindex.symm, envelope, ?_, ?_, fun envelope' frame' hframe' => ?_⟩
        · rw [hindex, Nat.sub_self]
          rfl
        · rw [hindex]
          exact hhead
        · rw [hindex] at hframe'
          rw [hindex, Nat.sub_self, List.set_cons_zero, outputFrames, hframe']
          show (outputFrames (start + 1) _ >>= _) = _
          rw [hfrms]
          rfl

/-! ## One stream -/

def frameBytes (stream : BuildLogStream) (frames : List OutputFrame) : Bytes :=
  (frames.filter (·.stream = stream)).flatMap (·.bytes)

/-- The frames with the bytes of one stream cut from a text. -/
def splice (stream : BuildLogStream) (combined : Bytes) : Nat → List OutputFrame → List OutputFrame
  | _, [] => []
  | offset, frame :: frames =>
    if frame.stream = stream then
      { frame with bytes := (combined.drop offset).take frame.bytes.length } ::
        splice stream combined (offset + frame.bytes.length) frames
    else frame :: splice stream combined offset frames

theorem frameBytes_cons : frameBytes stream (frame :: frames) =
      (if frame.stream = stream then frame.bytes else []) ++ frameBytes stream frames := by
  by_cases h : frame.stream = stream
  · rw [frameBytes, List.filter_cons_of_pos (by simpa using h), List.flatMap_cons, if_pos h]
    rfl
  · rw [frameBytes, List.filter_cons_of_neg (by simpa using h), if_neg h]
    rfl

theorem filter_splice_ne {other : BuildLogStream} (hother : other ≠ stream)
    (combined : Bytes) (offset : Nat) (frames : List OutputFrame) :
    (splice stream combined offset frames).filter (·.stream = other) =
      frames.filter (·.stream = other) := by
  induction frames generalizing offset with
  | nil => rfl
  | cons frame frames ih =>
    rw [splice]
    by_cases hstr : frame.stream = stream
    · have hne : frame.stream ≠ other := hstr ▸ Ne.symm hother
      rw [if_pos hstr, List.filter_cons_of_neg (by simpa using hne),
        List.filter_cons_of_neg (by simpa using hne)]
      exact ih _
    · rw [if_neg hstr, List.filter_cons, List.filter_cons, ih]

section

variable (hlen : offset + (frameBytes stream frames).length = combined.length)

include hlen

theorem sameFrame_splice :
    List.Forall₂ SameFrame frames (splice stream combined offset frames) := by
  induction frames generalizing offset with
  | nil => exact .nil
  | cons frame frames ih =>
    rw [frameBytes_cons, List.length_append] at hlen
    rw [splice]
    by_cases hstr : frame.stream = stream
    · rw [if_pos hstr] at hlen ⊢
      refine .cons ⟨rfl, ?_⟩ (ih (by omega))
      rw [List.length_take, List.length_drop]
      omega
    · rw [if_neg hstr] at hlen ⊢
      exact .cons (SameFrame.refl frame) (ih (by simpa using hlen))

theorem frameBytes_splice :
    frameBytes stream (splice stream combined offset frames) = combined.drop offset := by
  induction frames generalizing offset with
  | nil =>
    have hzero : (frameBytes stream []).length = 0 := rfl
    rw [List.drop_eq_nil_of_le (by omega)]
    rfl
  | cons frame frames ih =>
    rw [frameBytes_cons, List.length_append] at hlen
    rw [splice]
    by_cases hstr : frame.stream = stream
    · rw [if_pos hstr] at hlen ⊢
      rw [frameBytes_cons, if_pos hstr, ih (by omega), ← List.drop_drop, List.take_append_drop]
    · rw [if_neg hstr] at hlen ⊢
      rw [frameBytes_cons, if_neg hstr, List.nil_append, ih (by simpa using hlen)]

end

/-- One frame is written: its event is there and its bytes are inside the text. -/
theorem writeFrames_cons (later : List OutputFrame)
    (hfrms : outputFrames 0 events = .ok (done ++ frame :: frames))
    (hlen : offset + frame.bytes.length ≤ combined.length) :
    ∃ envelope, events[frame.eventIndex]? = some envelope ∧
      outputFrame frame.eventIndex envelope = .ok (some frame) ∧
      writeFrames combined (frame :: later) offset events =
        setOutputBytes envelope frame.format ((combined.drop offset).take frame.bytes.length) >>=
          fun envelope' => writeFrames combined later (offset + frame.bytes.length)
            (events.set frame.eventIndex envelope') := by
  obtain ⟨-, envelope, hget, hframe, -⟩ := outputFrames_set hfrms
  rw [Nat.sub_zero] at hget
  have hslice : slice combined offset (offset + frame.bytes.length) =
      .ok ((combined.drop offset).take frame.bytes.length) := by
    rw [slice, if_pos ⟨by omega, by omega⟩, Nat.add_sub_cancel_left]
  refine ⟨envelope, hget, hframe, ?_⟩
  rw [writeFrames, hget, okOr_some]
  show (slice _ _ _ >>= _) = _
  rw [hslice]
  rfl

/-- Writing one frame puts its new bytes in its place among the frames. -/
theorem write_step (hfrms : outputFrames 0 events = .ok (done ++ frame :: frames))
    (hget : events[frame.eventIndex]? = some envelope)
    (hwrite : setOutputBytes envelope frame.format bytes = .ok envelope')
    (hlen : bytes.length = frame.bytes.length) :
    outputFrames 0 (events.set frame.eventIndex envelope') =
        .ok (done ++ [{ frame with bytes := bytes }] ++ frames) ∧
      List.Forall₂ Redacts events (events.set frame.eventIndex envelope') := by
  obtain ⟨-, envelope₀, hget₀, hframe, hset⟩ := outputFrames_set hfrms
  rw [Nat.sub_zero] at hget₀ hset
  cases hget.symm.trans hget₀
  obtain ⟨hframe', hseq⟩ := outputFrame_setOutputBytes hframe hwrite
  rw [← List.append_cons]
  refine ⟨hset envelope' _ hframe', forall₂_set Redacts.refl hget ?_⟩
  exact .inr ⟨hseq, _, _, outputFrame_index 0 hframe, outputFrame_index 0 hframe', rfl,
    hlen⟩

/-- Writing the frames of one stream splices them into all frames. -/
theorem writeFrames_splice (hfrms : outputFrames 0 events = .ok (done ++ frames))
    (hlen : offset + (frameBytes stream frames).length = combined.length)
    (h : writeFrames combined (frames.filter (·.stream = stream)) offset events = .ok events') :
    outputFrames 0 events' = .ok (done ++ splice stream combined offset frames) ∧
      List.Forall₂ Redacts events events' := by
  induction frames generalizing done offset events with
  | nil =>
    cases h
    exact ⟨hfrms, List.forall₂_same.mpr fun envelope _ => Redacts.refl envelope⟩
  | cons frame frames ih =>
    rw [frameBytes_cons, List.length_append] at hlen
    rw [splice]
    by_cases hstr : frame.stream = stream
    · rw [if_pos hstr] at hlen ⊢
      obtain ⟨envelope, hget, -, hcons⟩ :=
        writeFrames_cons (frames.filter (·.stream = stream)) hfrms
          (show offset + frame.bytes.length ≤ combined.length by omega)
      rw [List.filter_cons_of_pos (by simpa using hstr), hcons] at h
      obtain ⟨envelope', hwrite, hloop⟩ := bind_eq_ok.mp h
      have hbytes : ((combined.drop offset).take frame.bytes.length).length =
          frame.bytes.length := by
        rw [List.length_take, List.length_drop]
        omega
      obtain ⟨hnext, hone⟩ := write_step hfrms hget hwrite hbytes
      obtain ⟨hrest, hredacts⟩ := ih hnext (by omega) hloop
      refine ⟨by rw [hrest, List.append_assoc]; rfl, ?_⟩
      exact forall₂_trans (fun _ _ _ _ hab hbc => hab.trans hbc) hone hredacts
    · rw [if_neg hstr] at hlen ⊢
      rw [List.filter_cons_of_neg (by simpa using hstr)] at h
      rw [List.append_cons] at hfrms
      obtain ⟨hrest, hredacts⟩ := ih hfrms (by simpa using hlen) h
      exact ⟨by rw [hrest, List.append_assoc]; rfl, hredacts⟩

theorem redactStreamFrames_eq_ok (hfrms : outputFrames 0 events = .ok frames)
    (h : redactStreamFrames events (frames.filter (·.stream = stream)) redactor = .ok events') :
    ∃ frames', outputFrames 0 events' = .ok frames' ∧ List.Forall₂ Redacts events events' ∧
      List.Forall₂ SameFrame frames frames' ∧
      redactor.redact (frameBytes stream frames) = some (frameBytes stream frames') ∧
      ∀ other, other ≠ stream →
        frames'.filter (·.stream = other) = frames.filter (·.stream = other) := by
  obtain ⟨combined, hcombined, h⟩ := bind_eq_ok.mp h
  have hredact := okOr_eq_ok.mp hcombined
  obtain ⟨combined', hredact', hlen⟩ := redactor.redact_total (frameBytes stream frames)
  cases hredact.symm.trans hredact'
  have hlen : 0 + (frameBytes stream frames).length = combined.length := by omega
  obtain ⟨hfrms', hredacts⟩ := writeFrames_splice (List.nil_append frames ▸ hfrms) hlen h
  refine ⟨_, hfrms', hredacts, sameFrame_splice hlen, ?_, fun other hother => ?_⟩
  · rw [List.nil_append, frameBytes_splice hlen]
    exact hredact
  · rw [List.nil_append, filter_splice_ne hother]

/-! ## The batch -/

/-- What a prepared batch is: its events are those of the input up to the bytes of their frames,
which are the redacted streams. -/
structure RedactedFrames (redactor : LogRedactor) (events events' : List AttemptEventEnvelope)
    (frames frames' : List OutputFrame) : Prop where
  before : outputFrames 0 events = .ok frames
  after : outputFrames 0 events' = .ok frames'
  sameEvents : List.Forall₂ Redacts events events'
  sameFrames : List.Forall₂ SameFrame frames frames'
  redact : ∀ stream, redactor.redact (frameBytes stream frames) = some (frameBytes stream frames')

theorem prepareLogArchive_eq_ok {rules : ChunkRules} {durableThrough : UInt64} {jobId : JobId}
    {prepared : PreparedLogArchive}
    (h : prepareLogArchive rules events durableThrough jobId redactor = .ok prepared) :
    ∃ frames frames', RedactedFrames redactor events prepared.events frames frames' ∧
      ∃ state, addFrames rules prepared.events jobId
        (frames.filter (·.sequence > durableThrough)) ⟨[], 0, []⟩ = .ok state ∧
          prepared.chunks = state.chunks := by
  obtain ⟨frames, hfrms, h⟩ := bind_eq_ok.mp h
  obtain ⟨middle, hstdout, h⟩ := bind_eq_ok.mp h
  obtain ⟨events', hstderr, h⟩ := bind_eq_ok.mp h
  obtain ⟨state, hstate, h⟩ := bind_eq_ok.mp h
  cases h
  obtain ⟨frames₁, hframes₁, hevents₁, hsame₁, hredact₁, hother₁⟩ :=
    redactStreamFrames_eq_ok hfrms hstdout
  -- The second stream is cut from the frames of the input, which the first pass has left alone.
  rw [← hother₁ .stderr (by decide)] at hstderr
  obtain ⟨frames₂, hframes₂, hevents₂, hsame₂, hredact₂, hother₂⟩ :=
    redactStreamFrames_eq_ok hframes₁ hstderr
  refine ⟨frames, frames₂, ⟨hfrms, hframes₂,
    forall₂_trans (fun _ _ _ _ hab hbc => hab.trans hbc) hevents₁ hevents₂,
    forall₂_trans (fun _ _ _ _ hab hbc => hab.trans hbc) hsame₁ hsame₂, ?_⟩, state, hstate, rfl⟩
  intro stream
  cases stream with
  | stdout =>
    rw [frameBytes, frameBytes, hother₂ .stdout (by decide)]
    exact hredact₁
  | stderr =>
    rw [frameBytes, ← hother₁ .stderr (by decide)]
    exact hredact₂

/-! ## No index is out of range -/

/-- The only error is the request's own. -/
def Safe {α : Type} (x : Except ArchiveFault α) : Prop := x ≠ .error .panic

theorem Safe.bind {α β : Type} {x : Except ArchiveFault α} {f : α → Except ArchiveFault β}
    (hx : Safe x) (hf : ∀ a, x = .ok a → Safe (f a)) : Safe (x >>= f) := by
  intro h
  rcases bind_eq_error.mp h with h | ⟨a, ha, h⟩
  · exact hx h
  · exact hf a ha h

theorem safe_ok {α : Type} (a : α) : Safe (.ok a) := fun h => by cases h

theorem safe_okOr {α : Type} (value : Option α) : Safe (okOr value .invalidRequest) := by
  cases value with
  | none => exact fun h => by cases h
  | some a => exact safe_ok a

theorem safe_outputFrame (index : Nat) (envelope : AttemptEventEnvelope) :
    Safe (outputFrame index envelope) := by
  unfold outputFrame
  split
  · exact safe_ok _
  · unfold runnerFrame
    split
    · exact safe_ok _
    · exact (safe_okOr _).bind fun _ _ => (safe_okOr _).bind fun _ _ => (safe_okOr _).bind
        fun _ _ => (safe_okOr _).bind fun _ _ => (safe_okOr _).bind fun _ _ => safe_ok _

theorem safe_outputFrames (index : Nat) (envelopes : List AttemptEventEnvelope) :
    Safe (outputFrames index envelopes) := by
  induction envelopes generalizing index with
  | nil => exact safe_ok _
  | cons envelope envelopes ih =>
    exact (safe_outputFrame index envelope).bind fun _ _ => (ih _).bind fun _ _ => safe_ok _

theorem safe_setOutputBytes (envelope : AttemptEventEnvelope) (format : OutputFormat)
    (bytes : Bytes) : Safe (setOutputBytes envelope format bytes) := by
  unfold setOutputBytes
  split
  · exact fun h => by cases h
  · exact (safe_okOr _).bind fun _ _ => (safe_okOr _).bind fun _ _ => safe_ok _

theorem safe_writeFrames (hfrms : outputFrames 0 events = .ok (done ++ frames))
    (hlen : offset + (frameBytes stream frames).length = combined.length) :
    Safe (writeFrames combined (frames.filter (·.stream = stream)) offset events) := by
  induction frames generalizing done offset events with
  | nil => exact safe_ok _
  | cons frame frames ih =>
    rw [frameBytes_cons, List.length_append] at hlen
    by_cases hstr : frame.stream = stream
    · rw [if_pos hstr] at hlen
      obtain ⟨envelope, hget, -, hcons⟩ :=
        writeFrames_cons (frames.filter (·.stream = stream)) hfrms
          (show offset + frame.bytes.length ≤ combined.length by omega)
      rw [List.filter_cons_of_pos (by simpa using hstr), hcons]
      refine (safe_setOutputBytes _ _ _).bind fun envelope' hwrite => ?_
      have hbytes : ((combined.drop offset).take frame.bytes.length).length =
          frame.bytes.length := by
        rw [List.length_take, List.length_drop]
        omega
      exact ih (write_step hfrms hget hwrite hbytes).1 (by omega)
    · rw [if_neg hstr] at hlen
      rw [List.filter_cons_of_neg (by simpa using hstr)]
      rw [List.append_cons] at hfrms
      exact ih hfrms (by simpa using hlen)

theorem safe_redactStreamFrames (hfrms : outputFrames 0 events = .ok frames) :
    Safe (redactStreamFrames events (frames.filter (·.stream = stream)) redactor) := by
  obtain ⟨combined, hredact, hlen⟩ := redactor.redact_total (frameBytes stream frames)
  have hlen : 0 + (frameBytes stream frames).length = combined.length := by omega
  unfold frameBytes at hredact
  rw [redactStreamFrames, hredact, okOr_some]
  exact safe_writeFrames (List.nil_append frames ▸ hfrms) hlen

section Chunks

variable {rules : ChunkRules} {events : List AttemptEventEnvelope} {jobId : JobId}

/-- Every frame has its event. -/
def HasEvents (events : List AttemptEventEnvelope) (frames : List OutputFrame) : Prop :=
  ∀ frame ∈ frames, ∃ envelope, events[frame.eventIndex]? = some envelope

variable {state : ChunkState}

theorem safe_finishChunk (hpend : HasEvents events state.pending) :
    Safe (finishChunk rules events jobId state) := by
  have hmapM : ∀ frames, HasEvents events frames → Safe (frames.mapM (redactedBytes events)) := by
    intro frames hfrms
    induction frames with
    | nil => exact safe_ok _
    | cons frame frames ih =>
      obtain ⟨envelope, hget⟩ := hfrms frame List.mem_cons_self
      rw [List.mapM_cons]
      refine Safe.bind ?_ fun _ _ =>
        (ih fun frame hmem => hfrms frame (List.mem_cons_of_mem _ hmem)).bind
          fun _ _ => safe_ok _
      rw [redactedBytes, hget, okOr_some]
      exact (safe_outputFrame _ _).bind fun _ _ => (safe_okOr _).bind fun _ _ => safe_ok _
  unfold finishChunk
  split
  · exact safe_ok _
  · rename_i first rest hlist
    rw [hlist] at hpend
    exact (hmapM _ hpend).bind fun _ _ => (safe_okOr _).bind fun _ _ => safe_ok _

theorem finishChunk_pending {state' : ChunkState}
    (h : finishChunk rules events jobId state = .ok state') : state'.pending = [] := by
  unfold finishChunk at h
  split at h
  · rename_i hpend
    cases h
    exact hpend
  · obtain ⟨_, -, h⟩ := bind_eq_ok.mp h
    obtain ⟨_, -, h⟩ := bind_eq_ok.mp h
    cases h
    rfl

theorem addFrame_pending {state' : ChunkState}
    (h : addFrame rules events jobId state frame = .ok state') :
    ∀ pending ∈ state'.pending, pending ∈ state.pending ∨ pending = frame := by
  unfold addFrame at h
  split at h
  · cases h
    exact fun _ hmem => .inl hmem
  · obtain ⟨middle, hmiddle, h⟩ := bind_eq_ok.mp h
    split at h
    · cases h
    · cases h
      have hsub : ∀ pending ∈ middle.pending, pending ∈ state.pending := by
        unfold makeRoom at hmiddle
        split at hmiddle
        · rw [finishChunk_pending hmiddle]
          exact fun _ hmem => absurd hmem List.not_mem_nil
        · cases hmiddle
          exact fun _ hmem => hmem
      intro pending hmem
      rcases List.mem_append.mp hmem with hmem | hmem
      · exact .inl (hsub pending hmem)
      · exact .inr (List.mem_singleton.mp hmem)

theorem safe_addFrames
    (hfrms : HasEvents events frames) (hpend : HasEvents events state.pending) :
    Safe (addFrames rules events jobId frames state) := by
  induction frames generalizing state with
  | nil => exact safe_finishChunk hpend
  | cons frame frames ih =>
    refine Safe.bind ?_ fun state' hstate' => ih
      (fun frame hmem => hfrms frame (List.mem_cons_of_mem _ hmem)) fun pending hmem => ?_
    · unfold addFrame
      split
      · exact safe_ok _
      · refine Safe.bind ?_ fun _ _ => ?_
        · unfold makeRoom
          split
          · exact safe_finishChunk hpend
          · exact safe_ok _
        · split
          · exact fun h => by cases h
          · exact safe_ok _
    · rcases addFrame_pending hstate' pending hmem with hmem | rfl
      · exact hpend pending hmem
      · exact hfrms pending List.mem_cons_self

end Chunks

theorem hasEvents_outputFrames
    (h : outputFrames 0 events = .ok frames) : HasEvents events frames := by
  intro frame hmem
  obtain ⟨done, rest, rfl⟩ := List.append_of_mem hmem
  obtain ⟨-, envelope, hget, -⟩ := outputFrames_set h
  exact ⟨envelope, hget⟩

theorem HasEvents.of_length (h : HasEvents events frames)
    (hlen : events.length = events'.length) : HasEvents events' frames := by
  intro frame hmem
  obtain ⟨envelope, hget⟩ := h frame hmem
  obtain ⟨hlt, -⟩ := List.getElem?_eq_some_iff.mp hget
  exact ⟨_, List.getElem?_eq_getElem (hlen ▸ hlt)⟩

/-- No call indexes outside of its lists or its bytes. -/
theorem safe_prepareLogArchive (rules : ChunkRules) (events : List AttemptEventEnvelope)
    (durableThrough : UInt64) (jobId : JobId) (redactor : LogRedactor) :
    Safe (prepareLogArchive rules events durableThrough jobId redactor) := by
  refine (safe_outputFrames 0 events).bind fun frames hfrms => ?_
  refine (safe_redactStreamFrames hfrms).bind fun middle hstdout => ?_
  obtain ⟨frames₁, hframes₁, hevents₁, -, -, hother₁⟩ := redactStreamFrames_eq_ok hfrms hstdout
  have hstderr : Safe (redactStreamFrames middle (frames.filter (·.stream = .stderr)) redactor) := by
    rw [← hother₁ .stderr (by decide)]
    exact safe_redactStreamFrames hframes₁
  refine hstderr.bind fun events' hevs' => ?_
  rw [← hother₁ .stderr (by decide)] at hevs'
  obtain ⟨-, -, hevents₂, -⟩ := redactStreamFrames_eq_ok hframes₁ hevs'
  refine (safe_addFrames ?_ fun _ hmem => absurd hmem List.not_mem_nil).bind fun _ _ => safe_ok _
  have hhas := (hasEvents_outputFrames hfrms).of_length
    (hevents₁.length_eq.trans hevents₂.length_eq)
  exact fun frame hmem => hhas frame (List.mem_of_mem_filter hmem)

end OctaCity.LogArchive
