/-
  OctaCity.Runner.RedactionQueue

  The queue of events held back.  Every operation keeps the anchors inside the
  queue, the byte count equal to the sizes of the queued events and every
  matcher in step with its text; so nothing underflows, no index runs past an
  end, and the events leave in the order they came.
-/
import OctaCity.Runner.Matching
import OctaCity.Runner.Redaction

namespace OctaCity.Runner

open Lib List

/-- What an event keeps through redaction. -/
def RunnerEvent.header (event : RunnerEvent) : UInt16 × UInt64 × String × String :=
  (event.schemaVersion, event.sequence, event.timestamp, event.category)

/-- Faults that would be a mistake of the filter itself. -/
def RedactionFault.IsInternal (fault : RedactionFault) : Prop :=
  fault = .index ∨ fault = .underflow ∨ fault = .payload ∨
    fault = .protocol "redaction queue became inconsistent"

open RedactionFault (IsInternal)

namespace RunnerRedactions

abbrev Headers := List (UInt16 × UInt64 × String × String)

def headers (state : RunnerRedactions) : Headers :=
  state.pending.map fun entry => entry.event.header

def countedBytes (pending : List PendingEvent) : Nat := (pending.map PendingEvent.bytes).sum

/-- The matcher has followed some text, which is free of values. -/
def Matches (values : List Bytes) (stream : RedactionStream) : Prop :=
  ∃ released, Follows values released stream ∧ Avoids values (released ++ stream.pending)

structure WellFormed (state : RunnerRedactions) : Prop where
  prepared : Prepared state.values state.prefixTables
  anchors : ∀ row ∈ state.streams.rows, row.2.anchor < state.pending.length
  counted : state.pendingBytes = countedBytes state.pending
  matchers : ∀ row ∈ state.streams.rows, Matches state.values row.2

/-- A step that changes queued events in place. -/
structure Keeps (state state' : RunnerRedactions) : Prop where
  wellFormed : state'.WellFormed
  headers : state'.headers = state.headers
  values : state'.values = state.values
  prefixTables : state'.prefixTables = state.prefixTables

variable {state state' : RunnerRedactions} {row : StreamKey × RedactionStream}

theorem Keeps.refl (h : state.WellFormed) : Keeps state state :=
  ⟨h, rfl, rfl, rfl⟩

theorem Keeps.trans {state'' : RunnerRedactions} (h : Keeps state state')
    (h' : Keeps state' state'') : Keeps state state'' :=
  ⟨h'.wellFormed, h'.headers.trans h.headers, h'.values.trans h.values,
    h'.prefixTables.trans h.prefixTables⟩

theorem Keeps.length (h : Keeps state state') : state'.pending.length = state.pending.length := by
  have := congrArg List.length h.headers
  simpa [RunnerRedactions.headers] using this

/-! ## Releasing -/

variable {pending : List PendingEvent} {fault : RedactionFault}

theorem countedBytes_set {index : Nat} {entry entry' : PendingEvent}
    (hentry : pending[index]? = some entry) :
    countedBytes (pending.set index entry') + entry.bytes =
      countedBytes pending + entry'.bytes := by
  induction pending generalizing index with
  | nil => cases hentry
  | cons head rest ih =>
    cases index with
    | zero =>
      cases hentry
      simp only [countedBytes, set_cons_zero, map_cons, sum_cons]
      omega
    | succ index =>
      have := ih hentry
      simp only [countedBytes, set_cons_succ, map_cons, sum_cons] at this ⊢
      omega

theorem popEvents_eq {count : Nat} (hcount : count ≤ pending.length) :
    popEvents count pending (countedBytes pending) =
      .ok ((pending.take count).map PendingEvent.event, pending.drop count,
        countedBytes (pending.drop count)) := by
  induction count generalizing pending with
  | zero => rfl
  | succ count ih =>
    cases pending with
    | nil => simp at hcount
    | cons entry rest =>
      have hsub : checkedSub (countedBytes (entry :: rest)) entry.bytes =
          .ok (countedBytes rest) := by
        unfold checkedSub countedBytes
        rw [map_cons, sum_cons, if_pos (Nat.le_add_right _ _), Nat.add_sub_cancel_left]
      rw [popEvents, hsub]
      show (popEvents count rest (countedBytes rest)).bind _ = _
      rw [ih (Nat.le_of_succ_le_succ hcount)]
      rfl

/-- How many events `releaseResolved` releases. -/
def releaseCount (state : RunnerRedactions) : Nat :=
  (state.streams.rows.map fun (_, stream) => stream.anchor).min?.getD state.pending.length

/-- No event at or behind an anchor is released. -/
theorem releaseCount_le_anchor
    (hrow : row ∈ state.streams.rows) : state.releaseCount ≤ row.2.anchor := by
  have hmem : row.2.anchor ∈ state.streams.rows.map fun (_, stream) => stream.anchor :=
    mem_map_of_mem hrow
  unfold releaseCount
  cases hmin : (state.streams.rows.map fun (_, stream) => stream.anchor).min? with
  | none =>
    rw [List.min?_eq_none_iff.mp hmin] at hmem
    cases hmem
  | some least => exact (List.min?_eq_some_iff.mp hmin).2 _ hmem

theorem releaseCount_le_length (h : state.WellFormed) :
    state.releaseCount ≤ state.pending.length := by
  unfold releaseCount
  cases hmin : (state.streams.rows.map fun (_, stream) => stream.anchor).min? with
  | none => exact le_rfl
  | some least =>
    obtain ⟨row, hrow, heq⟩ := mem_map.mp (List.min?_eq_some_iff.mp hmin).1
    rw [Option.getD_some, ← heq]
    exact (h.anchors row hrow).le

/-- The state after releasing the first `count` events. -/
def released (state : RunnerRedactions) (count : Nat) : RunnerRedactions :=
  { state with
    streams := state.streams.mapRows (shiftAnchor count) (shiftAnchor_key count)
    pending := state.pending.drop count
    pendingBytes := countedBytes (state.pending.drop count) }

/-- Releasing never fails. -/
theorem releaseResolved_eq (h : state.WellFormed) : state.releaseResolved =
      .ok ((state.pending.take state.releaseCount).map PendingEvent.event,
        state.released state.releaseCount) := by
  have hpop := popEvents_eq (releaseCount_le_length h)
  have hshift : shiftAnchors state.streams state.releaseCount =
      .ok (state.streams.mapRows (shiftAnchor state.releaseCount) (shiftAnchor_key _)) :=
    if_pos fun row hrow => releaseCount_le_anchor hrow
  rw [← h.counted] at hpop
  unfold releaseResolved
  change ((popEvents state.releaseCount state.pending state.pendingBytes).bind _) = _
  rw [hpop]
  change ((shiftAnchors state.streams state.releaseCount).bind _) = _
  rw [hshift]
  rfl

/-- What stays queued is as well formed as before. -/
theorem WellFormed.released (h : state.WellFormed) :
    (state.released state.releaseCount).WellFormed := by
  constructor
  · exact h.prepared
  · intro row hrow
    obtain ⟨row', hrow', rfl⟩ := mem_map.mp hrow
    have hlt := h.anchors row' hrow'
    have hle := releaseCount_le_anchor hrow'
    show row'.2.anchor - state.releaseCount < (state.pending.drop state.releaseCount).length
    rw [length_drop]
    omega
  · rfl
  · intro row hrow
    obtain ⟨row', hrow', rfl⟩ := mem_map.mp hrow
    obtain ⟨text, hfol, havoid⟩ := h.matchers row' hrow'
    exact ⟨text, ⟨hfol.base, hfol.history, hfol.states⟩, havoid⟩

/-- The events a step emits, followed by the queue it leaves, are the queue before. -/
structure Emits (state : RunnerRedactions) (result : List RunnerEvent × RunnerRedactions) :
    Prop where
  wellFormed : result.2.WellFormed
  headers : result.1.map RunnerEvent.header ++ result.2.headers = state.headers
  values : result.2.values = state.values
  prefixTables : result.2.prefixTables = state.prefixTables

theorem releaseResolved_ensures (h : state.WellFormed) :
    Ensures IsInternal (Emits state) state.releaseResolved := by
  rw [releaseResolved_eq h]
  refine ⟨h.released, ?_, rfl, rfl⟩
  show ((state.pending.take state.releaseCount).map PendingEvent.event).map RunnerEvent.header ++
    (state.pending.drop state.releaseCount).map (fun entry => entry.event.header) = state.headers
  rw [map_map]
  show (state.pending.take state.releaseCount).map (fun entry => entry.event.header) ++ _ = _
  rw [← map_append, take_append_drop]
  rfl

/-! ## Changing one queued event -/

theorem orFault_ensures {α : Type} {value : Option α} (h : value = none → ¬ fault.IsInternal) :
    Ensures IsInternal (fun a => value = some a) (orFault fault value) := by
  cases value with
  | some a => exact rfl
  | none => exact h rfl

theorem utf8_not_internal : ¬ RedactionFault.utf8.IsInternal := by
  simp [IsInternal]

section Operations

variable {codec : Codec} {state : RunnerRedactions} {index : Nat} {entry : PendingEvent}

variable {event : RunnerEvent} {fields : Fields} {key : StreamKey} {bytes : Bytes}
  {result : List RunnerEvent × RunnerRedactions}

/-- An event is replaced by one of the same header. -/
theorem refreshEventSize_ensures (h : state.WellFormed) (hentry : state.pending[index]? = some entry)
    (hheader : event.header = entry.event.header) :
    Ensures IsInternal (Keeps state) (state.refreshEventSize codec index event) := by
  unfold refreshEventSize
  rw [hentry]
  have hsize : Ensures IsInternal (fun _ => True) (eventWireBytes codec event) :=
    (orFault_ensures fun _ => by simp [IsInternal]).mono fun _ _ _ => trivial
  refine hsize.bind fun bytes _ _ => ?_
  have hcount : countedBytes (state.pending.set index ⟨event, bytes⟩) + entry.bytes =
      countedBytes state.pending + bytes := countedBytes_set hentry
  have hle : entry.bytes ≤ countedBytes state.pending := by
    have hzero : countedBytes (state.pending.set index ⟨event, 0⟩) + entry.bytes =
        countedBytes state.pending + 0 := countedBytes_set hentry
    omega
  rw [← h.counted] at hle
  have hsub : checkedSub state.pendingBytes entry.bytes =
      .ok (state.pendingBytes - entry.bytes) := if_pos hle
  rw [hsub]
  refine ⟨⟨h.prepared, ?_, ?_, h.matchers⟩, ?_, rfl, rfl⟩
  · intro row hrow
    rw [length_set]
    exact h.anchors row hrow
  · show state.pendingBytes - entry.bytes + bytes =
      countedBytes (state.pending.set index ⟨event, bytes⟩)
    rw [← h.counted] at hcount
    omega
  · -- The header at the changed place is the same.
    show (state.pending.set index ⟨event, bytes⟩).map _ = state.headers
    rw [map_set, hheader]
    apply ext_getElem?
    intro i
    by_cases hi : index = i
    · subst hi
      have hlt : index < state.pending.length := (List.getElem?_eq_some_iff.mp hentry).1
      rw [List.getElem?_set_self (by rwa [length_map]), headers, List.getElem?_map, hentry]
      rfl
    · rw [List.getElem?_set_ne hi]
      rfl

/-- New payload data leaves the header of the event. -/
theorem setOutputData_ensures
    (hpay : Fields.object event.data "payload" = some fields) (bytes : Bytes)
    (format : OutputFormat) :
    Ensures IsInternal (fun event' => event'.header = event.header)
      (setOutputData codec event bytes format) := by
  have hdata : Ensures IsInternal (fun _ => True) (payloadText codec format bytes) := by
    cases format with
    | line => exact (orFault_ensures fun _ => utf8_not_internal).mono fun _ _ _ => trivial
    | bytes => trivial
    | rawBytes => trivial
  unfold setOutputData
  rw [hpay]
  exact hdata.bind fun _ _ _ => rfl

variable {format : OutputFormat}

/-- The payload of an output event, with the stream it belongs to. -/
theorem outputPayload_eq_some : outputPayload codec event = some (key, format, bytes) ↔
      Fields.str event.data "type" = some "output" ∧
        ∃ payload data, Fields.object event.data "payload" = some payload ∧
          (Fields.str payload "format").bind OutputFormat.ofName = some format ∧
          Fields.str payload "data" = some data ∧ payloadBytes codec format data = some bytes ∧
          streamKey event = some key := by
  unfold outputPayload
  constructor
  · intro h
    obtain ⟨kind, hkind, h⟩ := Option.bind_eq_some_iff.mp h
    by_cases houtput : kind = "output"
    · rw [if_neg (not_not_intro houtput)] at h
      obtain ⟨payload, hpay, h⟩ := Option.bind_eq_some_iff.mp h
      obtain ⟨format', hfmt, h⟩ := Option.bind_eq_some_iff.mp h
      obtain ⟨data, hdata, h⟩ := Option.bind_eq_some_iff.mp h
      obtain ⟨bytes', hbytes, h⟩ := Option.bind_eq_some_iff.mp h
      obtain ⟨key', hkey, h⟩ := Option.bind_eq_some_iff.mp h
      cases h
      exact ⟨houtput ▸ hkind, payload, data, hpay, hfmt, hdata, hbytes, hkey⟩
    · rw [if_pos houtput] at h
      cases h
  · rintro ⟨hkind, payload, data, hpay, hfmt, hdata, hbytes, hkey⟩
    refine Option.bind_eq_some_iff.mpr ⟨_, hkind, ?_⟩
    rw [if_neg (not_not_intro rfl)]
    refine Option.bind_eq_some_iff.mpr ⟨_, hpay, ?_⟩
    refine Option.bind_eq_some_iff.mpr ⟨_, hfmt, ?_⟩
    refine Option.bind_eq_some_iff.mpr ⟨_, hdata, ?_⟩
    refine Option.bind_eq_some_iff.mpr ⟨_, hbytes, ?_⟩
    exact Option.bind_eq_some_iff.mpr ⟨_, hkey, rfl⟩

/-- New output keeps the queue in order. -/
theorem setOutput_ensures (h : state.WellFormed) (hentry : state.pending[index]? = some entry)
    (hpay : Fields.object entry.event.data "payload" = some fields)
    (bytes : Bytes) (format : OutputFormat) :
    Ensures IsInternal (Keeps state) (state.setOutput codec index bytes format) := by
  unfold setOutput
  rw [hentry]
  exact (setOutputData_ensures hpay bytes format).bind fun _ _ hheader =>
    refreshEventSize_ensures h hentry hheader

theorem exists_entry (hindex : index < state.pending.length) :
    ∃ entry, state.pending[index]? = some entry :=
  ⟨_, List.getElem?_eq_getElem hindex⟩

theorem appendOutputData_ensures (h : state.WellFormed) (hindex : index < state.pending.length)
    (suffix : Bytes) : Ensures IsInternal (Keeps state)
      (state.appendOutputData codec index suffix) := by
  obtain ⟨entry, hentry⟩ := exists_entry hindex
  unfold appendOutputData
  rw [hentry]
  have hpay : Ensures IsInternal
      (fun payload => outputPayload codec entry.event = some payload)
      (orFault (.protocol "redaction anchor is not an output event")
        (outputPayload codec entry.event)) :=
    orFault_ensures fun _ => by simp [IsInternal]
  refine hpay.bind ?_
  rintro ⟨key, format, bytes⟩ - hsome
  obtain ⟨-, fields, data, hflds, -⟩ := outputPayload_eq_some.mp hsome
  exact setOutput_ensures h hentry hflds _ _

theorem redactText_ensures (values : List Bytes) (text : String) :
    Ensures IsInternal (fun _ => True) (orFault .utf8 (redactString values text)) :=
  (orFault_ensures fun _ => utf8_not_internal).mono fun _ _ _ => trivial

mutual

/-- A document is redacted unless a string is no longer UTF-8. -/
theorem redactValue_ensures (codec : Codec) (values : List Bytes) (value : Json) :
    Ensures IsInternal (fun _ => True) (redactValue codec values value) := by
  cases value with
  | string text => exact (redactText_ensures values text).bind fun _ _ _ => trivial
  | array items => exact (redactItems_ensures codec values items).bind fun _ _ _ => trivial
  | object fields => exact (redactFields_ensures codec values _ fields).bind fun _ _ _ => trivial
  | null => trivial
  | bool value => trivial
  | number value => trivial

theorem redactItems_ensures (codec : Codec) (values : List Bytes) (items : List Json) :
    Ensures IsInternal (fun _ => True) (redactItems codec values items) := by
  cases items with
  | nil => trivial
  | cons item items =>
    exact (redactValue_ensures codec values item).bind fun _ _ _ =>
      (redactItems_ensures codec values items).bind fun _ _ _ => trivial

theorem redactFields_ensures (codec : Codec) (values : List Bytes) (data : Option String)
    (fields : Fields) :
    Ensures IsInternal (fun _ => True) (redactFields codec values data fields) := by
  match fields with
  | [] => trivial
  | (name, value) :: fields =>
    rw [redactFields]
    cases if name = "data" then data else none with
    | some encoded =>
      exact (redactText_ensures values encoded).bind fun _ _ _ =>
        (redactFields_ensures codec values data fields).bind fun _ _ _ => trivial
    | none =>
      exact (redactValue_ensures codec values value).bind fun _ _ _ =>
        (redactFields_ensures codec values data fields).bind fun _ _ _ => trivial

end

/-- Redacting a queued event keeps its header. -/
theorem redactEvent_ensures (h : state.WellFormed) (hindex : index < state.pending.length) :
    Ensures IsInternal (Keeps state) (state.redactEvent codec index) := by
  obtain ⟨entry, hentry⟩ := exists_entry hindex
  unfold redactEvent
  rw [hentry]
  exact (redactFields_ensures codec state.values _ _).bind fun _ _ _ =>
    refreshEventSize_ensures h hentry rfl

/-- A tail is appended to the event that its stream is anchored at. -/
theorem attachTail_ensures (h : state.WellFormed) (hindex : index < state.pending.length)
    (bytes : Bytes) : Ensures IsInternal (Keeps state) (state.attachTail codec index bytes) := by
  unfold attachTail
  by_cases hempty : bytes.isEmpty
  · rw [if_pos hempty]
    exact Keeps.refl h
  · rw [if_neg hempty]
    refine (appendOutputData_ensures h hindex bytes).bind fun state' _ hkeeps => ?_
    refine (redactEvent_ensures hkeeps.wellFormed ?_).mono fun _ _ => hkeeps.trans
    rw [hkeeps.length]
    exact hindex

/-! ## Dropping matchers -/

theorem erase_wellFormed (h : state.WellFormed) (key : StreamKey) :
    ({ state with streams := state.streams.erase key } : RunnerRedactions).WellFormed where
  prepared := h.prepared
  anchors row hrow := h.anchors row (Table.mem_erase.mp hrow).1
  counted := h.counted
  matchers row hrow := h.matchers row (Table.mem_erase.mp hrow).1

theorem erase_keeps (h : state.WellFormed) (key : StreamKey) :
    Keeps state { state with streams := state.streams.erase key } :=
  ⟨erase_wellFormed h key, rfl, rfl, rfl⟩

theorem find_mem
    (h : state.streams.find? key = some row) : row ∈ state.streams.rows ∧ row.1 = key :=
  (Table.find?_eq_some_iff _ _ _).mp h

section

variable (h : state.WellFormed)

include h

/-- Flushing a stream keeps the queue. -/
theorem flushKey_ensures (key : StreamKey) :
    Ensures IsInternal (Keeps state) (state.flushKey codec key) := by
  unfold flushKey
  cases hfind : state.streams.find? key with
  | none => exact Keeps.refl h
  | some row =>
    have hanch := h.anchors row (find_mem hfind).1
    exact (attachTail_ensures (erase_wellFormed h key) hanch _).mono fun _ _ =>
      (erase_keeps h key).trans

theorem flushKeys_ensures (keys : List StreamKey) :
    Ensures IsInternal (Keeps state) (state.flushKeys codec keys) :=
  Ensures.foldlM (fun _ hkeeps key _ => (flushKey_ensures hkeeps.wellFormed key).mono fun _ _ =>
    hkeeps.trans) (Keeps.refl h)

theorem finishMasked_ensures (hrow : row ∈ state.streams.rows) : Ensures IsInternal (fun _ => True)
      (orFault .index (row.2.finishMasked state.values state.prefixTables)) := by
  obtain ⟨text, hfol, havoid⟩ := h.matchers row hrow
  obtain ⟨masked, hmasked, -⟩ := masked_spec h.prepared hfol havoid
  unfold RedactionStream.finishMasked
  rw [hmasked]
  trivial

/-- Masking what a stream holds back keeps the queue. -/
theorem maskKey_ensures (key : StreamKey) :
    Ensures IsInternal (Keeps state) (state.maskKey codec key) := by
  unfold maskKey
  cases hfind : state.streams.find? key with
  | none => exact Keeps.refl h
  | some row =>
    have hrow := (find_mem hfind).1
    refine (finishMasked_ensures h hrow).bind fun bytes _ _ => ?_
    exact (attachTail_ensures (erase_wellFormed h key) (h.anchors row hrow) _).mono fun _ _ =>
      (erase_keeps h key).trans

end

theorem Emits.of_keeps (h : Keeps state state') (h' : Emits state' result) : Emits state result :=
  ⟨h'.wellFormed, h'.headers.trans h.headers, h'.values.trans h.values,
    h'.prefixTables.trans h.prefixTables⟩

/-- Relief masks every stream and releases the queue. -/
theorem relievePressure_ensures (h : state.WellFormed) :
    Ensures IsInternal (Emits state) (state.relievePressure codec) := by
  unfold relievePressure
  have hmask : Ensures IsInternal (Keeps state)
      (state.keys.foldlM (maskKey codec) state) :=
    Ensures.foldlM (fun _ hkeeps key _ => (maskKey_ensures hkeeps.wellFormed key).mono fun _ _ =>
      hkeeps.trans) (Keeps.refl h)
  exact hmask.bind fun _ _ hkeeps =>
    (releaseResolved_ensures hkeeps.wellFormed).mono fun _ _ => Emits.of_keeps hkeeps

theorem relieveIf_ensures (h : state.WellFormed) (reached : Bool) :
    Ensures IsInternal (Emits state) (state.relieveIf codec reached) := by
  cases reached with
  | true => exact relievePressure_ensures h
  | false => exact ⟨h, rfl, rfl, rfl⟩

/-! ## One event -/

/-- A queued event adds its bytes to the count. -/
theorem pushEvent_wellFormed (h : state.WellFormed) (event : RunnerEvent) (bytes : Nat) :
    (state.pushEvent event bytes).WellFormed where
  prepared := h.prepared
  anchors row hrow := by
    show row.2.anchor < (state.pending ++ [_]).length
    rw [length_append]
    exact (h.anchors row hrow).trans_le (Nat.le_add_right _ _)
  counted := by
    show state.pendingBytes + bytes = countedBytes (state.pending ++ [⟨event, bytes⟩])
    rw [h.counted]
    simp [countedBytes]
  matchers := h.matchers

theorem matches_streamFor (h : state.WellFormed) (index : Nat) (key : StreamKey) :
    Matches state.values (state.streamFor index key) := by
  unfold streamFor
  cases hfind : state.streams.find? key with
  | some row =>
    obtain ⟨text, hfol, havoid⟩ := h.matchers row (find_mem hfind).1
    exact ⟨text, ⟨hfol.base, hfol.history, hfol.states⟩, havoid⟩
  | none => exact ⟨[], follows_new index, avoids_nil h.prepared.ne_nil⟩

theorem streamFor_anchor (state : RunnerRedactions) (index : Nat) (key : StreamKey) :
    (state.streamFor index key).anchor = index := by
  unfold streamFor
  cases state.streams.find? key <;> rfl

/-- Pushed bytes leave a matcher that is still free of values. -/
theorem push_ensures (h : state.WellFormed) {stream : RedactionStream}
    (hmatch : Matches state.values stream) (bytes : Bytes) : Ensures IsInternal
      (fun result => Matches state.values result.2 ∧ result.2.anchor = stream.anchor)
      (orFault .index (stream.push state.values state.prefixTables bytes)) := by
  obtain ⟨text, hfol, havoid⟩ := hmatch
  obtain ⟨output, stream', hpush, hfol', havoid', hanch, -⟩ :=
    push_spec h.prepared hfol havoid bytes
  rw [hpush]
  exact ⟨⟨text ++ output, hfol', havoid'⟩, hanch⟩

section

variable (h : state.WellFormed) (hentry : state.pending[index]? = some entry)

include h hentry

/-- Output of a chunk goes through the matcher of its stream. -/
theorem pushChunk_ensures (hpay : Fields.object entry.event.data "payload" = some fields)
    (key : StreamKey) (format : OutputFormat) (bytes : Bytes) :
    Ensures IsInternal (Keeps state)
      (state.pushChunk codec index key format bytes) := by
  unfold pushChunk
  refine (push_ensures h (matches_streamFor h index key) bytes).bind ?_
  rintro ⟨output, stream⟩ - ⟨hmatch, hanch⟩
  rw [streamFor_anchor] at hanch
  have hindex : index < state.pending.length := (List.getElem?_eq_some_iff.mp hentry).1
  have hstrs : ∀ streams : Streams,
      streams = state.streams.erase key ∨ streams = state.streams.put (key, stream) →
      ({ state with streams := streams } : RunnerRedactions).WellFormed := by
    rintro streams (rfl | rfl)
    · exact erase_wellFormed h key
    · refine ⟨h.prepared, ?_, h.counted, ?_⟩
      · intro row hrow
        rcases Table.mem_put.mp hrow with rfl | ⟨hrow, -⟩
        · show stream.anchor < state.pending.length
          rw [hanch]
          exact hindex
        · exact h.anchors row hrow
      · intro row hrow
        rcases Table.mem_put.mp hrow with rfl | ⟨hrow, -⟩
        · exact hmatch
        · exact h.matchers row hrow
  have hwell := hstrs (if stream.pending.isEmpty then state.streams.erase key
    else state.streams.put (key, stream)) (by split <;> simp)
  exact (setOutput_ensures hwell hentry hpay output format).mono fun _ _ hkeeps =>
    ⟨hkeeps.wellFormed, hkeeps.headers, hkeeps.values, hkeeps.prefixTables⟩

theorem pushLine_ensures (hpay : Fields.object entry.event.data "payload" = some fields)
    (key : StreamKey) (bytes : Bytes) :
    Ensures IsInternal (Keeps state) (state.pushLine codec index key bytes) := by
  unfold pushLine
  cases hfind : state.streams.find? key with
  | none => exact Keeps.refl h
  | some row =>
    refine (push_ensures h (h.matchers row (find_mem hfind).1) bytes).bind fun result _ _ => ?_
    exact (setOutput_ensures (erase_wellFormed h key) hentry hpay _ _).mono fun _ _ =>
      (erase_keeps h key).trans

/-- Output of either format keeps the queue. -/
theorem pushOutput_ensures : Ensures IsInternal (Keeps state)
      (state.pushOutput codec index (outputPayload codec entry.event)) := by
  cases hpay : outputPayload codec entry.event with
  | none => exact Keeps.refl h
  | some payload =>
    obtain ⟨key, format, bytes⟩ := payload
    obtain ⟨-, fields, data, hflds, -⟩ := outputPayload_eq_some.mp hpay
    cases format with
    | line => exact pushLine_ensures h hentry hflds key bytes
    | bytes => exact pushChunk_ensures h hentry hflds key .bytes bytes
    | rawBytes => exact pushChunk_ensures h hentry hflds key .rawBytes bytes

end

/-- A boundary flushes the streams it ends. -/
theorem flushForBoundary_ensures (h : state.WellFormed) (hindex : index < state.pending.length) :
    Ensures IsInternal (Keeps state) (state.flushForBoundary codec index) := by
  obtain ⟨entry, hentry⟩ := exists_entry hindex
  unfold flushForBoundary
  refine (orFault_ensures fun hnone => by simp [hentry] at hnone).bind fun entry _ _ => ?_
  cases boundaryOf entry.event with
  | some boundary => exact flushKeys_ensures h _
  | none => exact Keeps.refl h

/-- The queue before an event, the event, and what follows: emitted and queued. -/
structure Accepts (state : RunnerRedactions) (events : List RunnerEvent)
    (result : List RunnerEvent × RunnerRedactions) : Prop where
  wellFormed : result.2.WellFormed
  headers : result.1.map RunnerEvent.header ++ result.2.headers =
    state.headers ++ events.map RunnerEvent.header
  values : result.2.values = state.values
  prefixTables : result.2.prefixTables = state.prefixTables

/-- An event joins the queue behind the earlier ones. -/
theorem enqueue_ensures (h : state.WellFormed) (event : RunnerEvent) (eventBytes : Nat) :
    Ensures IsInternal (fun state' => Accepts state [event] ([], state'))
      (state.enqueue codec event eventBytes) := by
  have hpushed := pushEvent_wellFormed h event eventBytes
  have hindex : (state.pushEvent event eventBytes).pending.length - 1 = state.pending.length := by
    simp [pushEvent]
  have hlt : state.pending.length < (state.pushEvent event eventBytes).pending.length := by
    simp [pushEvent]
  have hentry : (state.pushEvent event eventBytes).pending[state.pending.length]? =
      some ⟨event, eventBytes⟩ := by
    simp [pushEvent]
  have hheaders : (state.pushEvent event eventBytes).headers = state.headers ++ [event.header] := by
    simp [pushEvent, headers]
  unfold enqueue
  show Ensures _ _ (((state.pushEvent event eventBytes).pushOutput codec
    ((state.pushEvent event eventBytes).pending.length - 1) (outputPayload codec event)).bind _)
  rw [hindex]
  refine (pushOutput_ensures hpushed hentry).bind fun state₁ _ h₁ => ?_
  refine (redactEvent_ensures h₁.wellFormed (by rw [h₁.length]; exact hlt)).bind
    fun state₂ _ h₂ => ?_
  have h₂ := h₁.trans h₂
  refine (flushForBoundary_ensures h₂.wellFormed (by rw [h₂.length]; exact hlt)).mono
    fun state₃ _ h₃ => ?_
  have h₃ := h₂.trans h₃
  exact ⟨h₃.wellFormed, h₃.headers.trans hheaders, h₃.values, h₃.prefixTables⟩

/-- Each step's events follow the events of the steps before it. -/
theorem Accepts.trans {events later : List RunnerEvent}
    {result' : List RunnerEvent × RunnerRedactions} (h : Accepts state events result)
    (h' : Accepts result.2 later result') :
    Accepts state (events ++ later) (result.1 ++ result'.1, result'.2) where
  wellFormed := h'.wellFormed
  headers := by
    rw [map_append, append_assoc, h'.headers, ← append_assoc, h.headers,
      map_append, append_assoc]
  values := h'.values.trans h.values
  prefixTables := h'.prefixTables.trans h.prefixTables

theorem Emits.accepts (h : Emits state result) : Accepts state [] result :=
  ⟨h.wellFormed, h.headers.trans (append_nil _).symm, h.values, h.prefixTables⟩

/-- Making room emits earlier events only. -/
theorem admit_ensures (h : state.WellFormed) (event : RunnerEvent) (allocated : Allocation) :
    Ensures IsInternal
      (fun result => Accepts state [] (result.1, result.2.1))
      (state.makeRoom codec event allocated) := by
  unfold makeRoom
  refine (releaseResolved_ensures h).bind fun ⟨released, state₁⟩ _ h₁ => ?_
  refine (relieveIf_ensures h₁.wellFormed _).bind fun ⟨relieved, state₂⟩ _ h₂ => ?_
  have hsize : Ensures IsInternal (fun _ => True) (eventWireBytes codec event) :=
    (orFault_ensures fun _ => by simp [IsInternal]).mono fun _ _ _ => trivial
  refine hsize.bind fun eventBytes _ _ => ?_
  refine (relieveIf_ensures h₂.wellFormed _).bind fun ⟨relieved', state₃⟩ _ h₃ => ?_
  exact (h₁.accepts.trans h₂.accepts).trans h₃.accepts

theorem events_ensures (h : state.WellFormed) (event : RunnerEvent) (allocated : Allocation) :
    Ensures IsInternal (Accepts state [event]) (state.events codec event allocated) := by
  unfold events
  refine (admit_ensures h event allocated).bind fun ⟨admitted, state₁, eventBytes⟩ _ h₁ => ?_
  refine (enqueue_ensures h₁.wellFormed event eventBytes).bind fun state₂ _ h₂ => ?_
  refine (relieveIf_ensures h₂.wellFormed _).bind fun ⟨relieved, state₃⟩ _ h₃ => ?_
  have h₃' := (h₁.trans h₂).trans h₃.accepts
  show Ensures _ _ (if _ then _ else _)
  split
  · exact (show ¬ IsInternal _ by simp [IsInternal])
  · refine (releaseResolved_ensures h₃.wellFormed).bind fun ⟨released, state₄⟩ _ h₄ => ?_
    have h₄' := h₃'.trans h₄.accepts
    show Accepts state [event] (admitted ++ relieved ++ released, state₄)
    simpa using h₄'

/-- A run emits and queues its events in their order. -/
theorem runEvents_ensures (h : state.WellFormed) (inputs : List (RunnerEvent × Allocation)) :
    Ensures IsInternal (Accepts state (inputs.map Prod.fst)) (state.runEvents codec inputs) := by
  induction inputs generalizing state with
  | nil => exact ⟨h, (append_nil _).symm, rfl, rfl⟩
  | cons input rest ih =>
    obtain ⟨event, allocated⟩ := input
    rw [runEvents]
    refine (events_ensures h event allocated).bind fun ⟨emitted, state₁⟩ _ h₁ => ?_
    exact (ih h₁.wellFormed).bind fun ⟨later, state₂⟩ _ h₂ => h₁.trans h₂

/-! ## What a change leaves alone -/

/-- Changing a queued event touches that event and the byte count. -/
structure Replaces (state : RunnerRedactions) (index : Nat) (event : RunnerEvent)
    (state' : RunnerRedactions) : Prop where
  pending : ∃ bytes, state'.pending = state.pending.set index ⟨event, bytes⟩
  streams : state'.streams = state.streams
  values : state'.values = state.values
  prefixTables : state'.prefixTables = state.prefixTables

theorem refreshEventSize_replaces (h : state.refreshEventSize codec index event = .ok state') :
    Replaces state index event state' := by
  unfold refreshEventSize at h
  obtain ⟨entry, -, h⟩ := bind_eq_ok.mp h
  obtain ⟨bytes, -, h⟩ := bind_eq_ok.mp h
  obtain ⟨rest, -, h⟩ := bind_eq_ok.mp h
  cases h
  exact ⟨⟨bytes, rfl⟩, rfl, rfl, rfl⟩

theorem orFault_eq_ok {α : Type} {value : Option α} {a : α} :
    orFault fault value = .ok a ↔ value = some a := by
  cases value with
  | some b => simp [orFault]
  | none => simp [orFault]

theorem setOutput_eq_ok (h : state.setOutput codec index bytes format = .ok state') :
    ∃ entry event, state.pending[index]? = some entry ∧
      setOutputData codec entry.event bytes format = .ok event ∧
      Replaces state index event state' := by
  unfold setOutput at h
  obtain ⟨entry, hentry, h⟩ := bind_eq_ok.mp h
  obtain ⟨event, hevent, h⟩ := bind_eq_ok.mp h
  exact ⟨entry, event, orFault_eq_ok.mp hentry, hevent, refreshEventSize_replaces h⟩

theorem redactEvent_eq_ok (h : state.redactEvent codec index = .ok state') :
    ∃ entry data, state.pending[index]? = some entry ∧
      redactMap codec state.values entry.event.data = .ok data ∧
      Replaces state index { entry.event with data := data } state' := by
  unfold redactEvent at h
  obtain ⟨entry, hentry, h⟩ := bind_eq_ok.mp h
  obtain ⟨data, hdata, h⟩ := bind_eq_ok.mp h
  exact ⟨entry, data, orFault_eq_ok.mp hentry, hdata, refreshEventSize_replaces h⟩

theorem appendOutputData_eq_ok {suffix : Bytes}
    (h : state.appendOutputData codec index suffix = .ok state') :
    ∃ entry key format bytes event, state.pending[index]? = some entry ∧
      outputPayload codec entry.event = some (key, format, bytes) ∧
      setOutputData codec entry.event (bytes ++ suffix) format = .ok event ∧
      Replaces state index event state' := by
  unfold appendOutputData at h
  obtain ⟨entry, hentry, h⟩ := bind_eq_ok.mp h
  obtain ⟨⟨key, format, bytes⟩, hpay, h⟩ := bind_eq_ok.mp h
  obtain ⟨entry', event, hentry', hevent, hrepl⟩ := setOutput_eq_ok h
  rw [orFault_eq_ok] at hentry hpay
  rw [hentry] at hentry'
  cases hentry'
  exact ⟨entry, key, format, bytes, event, hentry, hpay, hevent, hrepl⟩

/-- A tail changes its anchor's event, and nothing when it is empty. -/
theorem attachTail_eq_ok (h : state.attachTail codec index bytes = .ok state') :
    bytes = [] ∧ state' = state ∨
      ∃ entry key format payload event data, state.pending[index]? = some entry ∧
        outputPayload codec entry.event = some (key, format, payload) ∧
        setOutputData codec entry.event (payload ++ bytes) format = .ok event ∧
        redactMap codec state.values event.data = .ok data ∧
        Replaces state index { event with data := data } state' := by
  unfold attachTail at h
  by_cases hempty : bytes.isEmpty
  · rw [if_pos hempty] at h
    cases h
    exact Or.inl ⟨isEmpty_iff.mp hempty, rfl⟩
  · rw [if_neg hempty] at h
    obtain ⟨state₁, happend, h⟩ := bind_eq_ok.mp h
    obtain ⟨entry, key, format, payload, event, hentry, hpay, hevent, hr⟩ :=
      appendOutputData_eq_ok happend
    obtain ⟨entry', data, hentry', hdata, hr'⟩ := redactEvent_eq_ok h
    obtain ⟨bytes₁, hpend⟩ := hr.pending
    have hlt : index < state.pending.length := (List.getElem?_eq_some_iff.mp hentry).1
    rw [hpend, List.getElem?_set_self hlt] at hentry'
    cases hentry'
    rw [hr.values] at hdata
    refine Or.inr ⟨entry, key, format, payload, event, data, hentry, hpay, hevent, hdata, ?_,
      hr'.streams.trans hr.streams, hr'.values.trans hr.values,
      hr'.prefixTables.trans hr.prefixTables⟩
    obtain ⟨bytes₂, hpend'⟩ := hr'.pending
    exact ⟨bytes₂, by rw [hpend', hpend, set_set]⟩

theorem attachTail_streams
    (h : state.attachTail codec index bytes = .ok state') : state'.streams = state.streams := by
  rcases attachTail_eq_ok h with ⟨-, rfl⟩ | ⟨_, _, _, _, _, _, -, -, -, -, hr⟩
  · rfl
  · exact hr.streams

/-! ## The final flush -/

theorem flushKey_streams (h : state.flushKey codec key = .ok state') :
    ∀ row ∈ state'.streams.rows, row ∈ state.streams.rows ∧ row.1 ≠ key := by
  unfold flushKey at h
  cases hfind : state.streams.find? key with
  | none =>
    rw [hfind] at h
    cases h
    exact fun row hrow => ⟨hrow, Table.find?_eq_none_iff.mp hfind row hrow⟩
  | some row =>
    rw [hfind] at h
    rw [attachTail_streams h]
    exact fun row hrow => Table.mem_erase.mp hrow

theorem flushKeys_streams {keys : List StreamKey} (h : state.flushKeys codec keys = .ok state') :
    ∀ row ∈ state'.streams.rows, row ∈ state.streams.rows ∧ row.1 ∉ keys := by
  unfold flushKeys at h
  induction keys generalizing state with
  | nil =>
    cases h
    exact fun row hrow => ⟨hrow, not_mem_nil⟩
  | cons key rest ih =>
    rw [foldlM_cons] at h
    obtain ⟨state₁, hkey, h⟩ := bind_eq_ok.mp h
    intro row hrow
    obtain ⟨hrow₁, hrest⟩ := ih h row hrow
    obtain ⟨hrow₀, hne⟩ := flushKey_streams hkey row hrow₁
    exact ⟨hrow₀, by rw [mem_cons, not_or]; exact ⟨hne, hrest⟩⟩

/-- The final flush empties the streams, so it releases the whole queue. -/
theorem finishEvents_ensures (h : state.WellFormed) : Ensures IsInternal
      (fun result => Accepts state [] result ∧ result.2.streams.rows = [] ∧ result.2.pending = [])
      (state.finishEvents codec) := by
  unfold finishEvents
  refine (flushKeys_ensures h state.keys).bind fun state₁ hflush hkeeps => ?_
  have hstrs : state₁.streams.rows = [] := by
    refine eq_nil_iff_forall_not_mem.mpr fun row hrow => ?_
    obtain ⟨hrow₀, hkey⟩ := flushKeys_streams hflush row hrow
    exact hkey (mem_map_of_mem hrow₀)
  have hcount : state₁.releaseCount = state₁.pending.length := by
    unfold releaseCount
    rw [hstrs]
    rfl
  rw [releaseResolved_eq hkeeps.wellFormed]
  have hemits := releaseResolved_ensures hkeeps.wellFormed
  rw [releaseResolved_eq hkeeps.wellFormed] at hemits
  refine ⟨(Emits.of_keeps hkeeps hemits).accepts, ?_, ?_⟩
  · show (state₁.streams.rows.map _) = []
    rw [hstrs]
    rfl
  · show state₁.pending.drop state₁.releaseCount = []
    rw [hcount, drop_length]

/-- A whole run emits every event, in order, and leaves nothing queued. -/
theorem run_ensures (h : state.WellFormed) (inputs : List (RunnerEvent × Allocation)) :
    Ensures IsInternal
      (fun result => Accepts state (inputs.map Prod.fst) result ∧
        result.2.streams.rows = [] ∧ result.2.pending = []) (state.run codec inputs) := by
  unfold run
  refine (runEvents_ensures h inputs).bind fun ⟨emitted, state₁⟩ _ h₁ => ?_
  refine (finishEvents_ensures h₁.wellFormed).bind fun ⟨flushed, state₂⟩ _ h₂ => ?_
  obtain ⟨haccs, hstrs, hpend⟩ := h₂
  refine ⟨?_, hstrs, hpend⟩
  have := h₁.trans haccs
  rwa [append_nil] at this

end Operations

end RunnerRedactions

end OctaCity.Runner
