/-
  OctaCity.Runner.StreamEvents

  What one event of a run does to one stream: a chunk goes through the stream's
  matcher, a line or a boundary ends the matcher, and every other event leaves
  the stream as it is.
-/
import OctaCity.Runner.StreamAccounts

namespace OctaCity.Runner

open Lib List

namespace RunnerRedactions

variable {codec : Codec} {lines : Bool} {key : StreamKey} {values : List Bytes}
  {Input : RunnerEvent → Prop} {Allowed : Bytes → Prop} {Reads : OutputFormat → Bytes → RunnerEvent → Prop}
  {inputs emitted : List RunnerEvent} {state : RunnerRedactions} {written : List Bytes}

/-! ## The event as it is queued -/

/-- What the output of a new event does: the event as it is written, and the
    matchers that are left. -/
inductive Written (codec : Codec) (state : RunnerRedactions) (event : RunnerEvent) :
    RunnerEvent → Streams → Prop
  | plain : outputPayload codec event = none → Written codec state event event state.streams
  | chunk {key : StreamKey} {format : OutputFormat} {bytes out : Bytes} {stream : RedactionStream}
      {written : RunnerEvent} : outputPayload codec event = some (key, format, bytes) →
      format ≠ .line →
      (state.streamFor state.pending.length key).push state.values state.prefixTables bytes =
        some (out, stream) →
      setOutputData codec event out format = .ok written →
      Written codec state event written (if stream.pending.isEmpty then state.streams.erase key
        else state.streams.put (key, stream))
  | line {key : StreamKey} {bytes : Bytes} :
      outputPayload codec event = some (key, .line, bytes) → state.streams.find? key = none →
      Written codec state event event state.streams
  | joined {key : StreamKey} {bytes out : Bytes} {row : StreamKey × RedactionStream}
      {stream : RedactionStream} {written : RunnerEvent} :
      outputPayload codec event = some (key, .line, bytes) →
      state.streams.find? key = some row →
      row.2.push state.values state.prefixTables bytes = some (out, stream) →
      setOutputData codec event (out ++ stream.finish ++ [10]) .bytes = .ok written →
      Written codec state event written (state.streams.erase key)

theorem getElem?_pushed (state : RunnerRedactions) (entry : PendingEvent) :
    (state.pending ++ [entry])[state.pending.length]? = some entry := by
  rw [List.getElem?_append_right le_rfl, Nat.sub_self]
  rfl

theorem set_pushed (state : RunnerRedactions) (entry entry' : PendingEvent) :
    (state.pending ++ [entry]).set state.pending.length entry' = state.pending ++ [entry'] := by
  rw [set_append_right _ _ le_rfl, Nat.sub_self]
  rfl

variable {streams : Streams} {event written₀ : RunnerEvent} {eventBytes : Nat}
  {state' : RunnerRedactions}

variable {bytes : Bytes} {format : OutputFormat} {state₁ : RunnerRedactions} {n : Nat}

theorem setOutput_pushed
    (h : ({ state.pushEvent event eventBytes with streams := streams }).setOutput codec
      state.pending.length bytes format = .ok state₁) :
    ∃ written n, setOutputData codec event bytes format = .ok written ∧
      state₁.pending = state.pending ++ [⟨written, n⟩] ∧ state₁.streams = streams ∧
      state₁.values = state.values ∧ state₁.prefixTables = state.prefixTables := by
  obtain ⟨entry, written, hentry, hset, hrepl⟩ := setOutput_eq_ok h
  have hpushed := getElem?_pushed state ⟨event, eventBytes⟩
  have hentry' : (state.pending ++ [⟨event, eventBytes⟩])[state.pending.length]? = some entry :=
    hentry
  rw [hpushed] at hentry'
  cases hentry'
  obtain ⟨n, hpend⟩ := hrepl.pending
  refine ⟨written, n, hset, ?_, hrepl.streams, hrepl.values, hrepl.prefixTables⟩
  rw [hpend]
  exact set_pushed state _ _

theorem pushOutput_pushed
    (h : (state.pushEvent event eventBytes).pushOutput codec state.pending.length
      (outputPayload codec event) = .ok state₁) :
    ∃ written n, Written codec state event written state₁.streams ∧
      state₁.pending = state.pending ++ [⟨written, n⟩] ∧
      state₁.values = state.values ∧ state₁.prefixTables = state.prefixTables := by
  have hchunk : ∀ {key format bytes}, outputPayload codec event = some (key, format, bytes) →
      format ≠ .line →
      (state.pushEvent event eventBytes).pushChunk codec state.pending.length key format bytes =
        .ok state₁ →
      ∃ written n, Written codec state event written state₁.streams ∧
        state₁.pending = state.pending ++ [⟨written, n⟩] ∧
        state₁.values = state.values ∧ state₁.prefixTables = state.prefixTables := by
    intro key format bytes hpay hfmt h
    unfold pushChunk at h
    obtain ⟨⟨out, stream⟩, hpush, h⟩ := bind_eq_ok.mp h
    obtain ⟨written, n, hset, hpend, hstrs, hvals⟩ := setOutput_pushed h
    refine ⟨written, n, ?_, hpend, hvals⟩
    rw [hstrs]
    exact Written.chunk hpay hfmt (orFault_eq_ok.mp hpush) hset
  cases hpay : outputPayload codec event with
  | none =>
    rw [hpay] at h
    cases h
    exact ⟨event, eventBytes, Written.plain hpay, rfl, rfl, rfl⟩
  | some payload =>
    obtain ⟨key, format, bytes⟩ := payload
    rw [hpay] at h hchunk
    cases format with
    | bytes => exact hchunk rfl (by decide) h
    | rawBytes => exact hchunk rfl (by decide) h
    | line =>
      change (state.pushEvent event eventBytes).pushLine codec state.pending.length key bytes =
        .ok state₁ at h
      have hstrs : (state.pushEvent event eventBytes).streams.find? key = state.streams.find? key := rfl
      rw [pushLine, hstrs] at h
      cases hfind : state.streams.find? key with
      | none =>
        rw [hfind] at h
        cases h
        exact ⟨event, eventBytes, Written.line hpay hfind, rfl, rfl, rfl⟩
      | some row =>
        rw [hfind] at h
        obtain ⟨⟨out, stream⟩, hpush, h⟩ := bind_eq_ok.mp h
        obtain ⟨written, n, hset, hpend, hstrs, hvals⟩ := setOutput_pushed h
        refine ⟨written, n, ?_, hpend, hvals⟩
        rw [hstrs]
        exact Written.joined hpay hfind (orFault_eq_ok.mp hpush) hset

/-- A queued event is written, redacted, and may end streams. -/
theorem enqueue_eq_ok (h : state.enqueue codec event eventBytes = .ok state') :
    ∃ (written : RunnerEvent) (data : Fields) (n : Nat) (state₂ : RunnerRedactions),
      Written codec state event written state₂.streams ∧
      redactMap codec state.values written.data = .ok data ∧
      state₂.pending = state.pending ++ [⟨{ written with data := data }, n⟩] ∧
      state₂.values = state.values ∧ state₂.prefixTables = state.prefixTables ∧
      (match boundaryOf { written with data := data } with
        | some boundary => state₂.flushKeys codec (state₂.keys.filter (endsStream boundary))
        | none => .ok state₂) = .ok state' := by
  unfold enqueue at h
  have hindex : (state.pushEvent event eventBytes).pending.length - 1 = state.pending.length := by
    simp [pushEvent]
  change ((state.pushEvent event eventBytes).pushOutput codec
    ((state.pushEvent event eventBytes).pending.length - 1) (outputPayload codec event)).bind _ =
      .ok state' at h
  rw [hindex] at h
  obtain ⟨state₁, hpush, h⟩ := bind_eq_ok.mp h
  obtain ⟨state₂, hredact, h⟩ := bind_eq_ok.mp h
  obtain ⟨written, n, hwrit, hpend, hvals, htables⟩ := pushOutput_pushed hpush
  obtain ⟨entry, data, hentry, hdata, hrepl⟩ := redactEvent_eq_ok hredact
  rw [hpend, getElem?_pushed] at hentry
  cases hentry
  obtain ⟨n', hpend'⟩ := hrepl.pending
  rw [hpend, set_pushed] at hpend'
  rw [hvals] at hdata
  refine ⟨written, data, n', state₂, by rwa [hrepl.streams], hdata, hpend',
    hrepl.values.trans hvals, hrepl.prefixTables.trans htables, ?_⟩
  unfold flushForBoundary at h
  obtain ⟨entry, hentry, h⟩ := bind_eq_ok.mp h
  rw [orFault_eq_ok, hpend', getElem?_pushed] at hentry
  cases hentry
  exact h

/-! ## The account of the stream -/

/-- The account grows by the queued event. -/
theorem Accounts.append (h : Accounts codec lines key Reads inputs emitted state written)
    {output : RunnerEvent} {piece : Bytes}
    (hpend : state'.pending = state.pending ++ [⟨output, n⟩])
    (hother : ¬ IsOutput codec lines key event → piece = [])
    (hreads : ∀ format bytes, outputPayload codec event = some (key, format, bytes) →
      (format = .line → lines = true) → Reads format piece output)
    (hanchors : ∀ row ∈ state'.streams.rows, row ∈ state.streams.rows ∨
      row.2.anchor = state.pending.length ∧
        ∃ format bytes, outputPayload codec event = some (row.1, format, bytes) ∧ format ≠ .line)
    (hlast : ∀ row, state'.streams.find? key = some row → row.2.anchor = state.pending.length ∨
      state.streams.find? key = some row ∧ ¬ IsOutput codec lines key event) :
    Accounts codec lines key Reads (inputs ++ [event]) emitted state' (written ++ [piece]) := by
  have hqueued := h.queued
  have hlen := h.length
  -- An index of the longer list is an old index or the new one.
  have hcases : ∀ {i : Nat} {input : RunnerEvent}, (inputs ++ [event])[i]? = some input →
      (i < inputs.length ∧ inputs[i]? = some input) ∨ (i = inputs.length ∧ input = event) := by
    intro i input hi
    rcases lt_or_ge i inputs.length with hlt | hge
    · rw [List.getElem?_append_left hlt] at hi
      exact Or.inl ⟨hlt, hi⟩
    · have hlt := (List.getElem?_eq_some_iff.mp hi).1
      rw [length_append, length_singleton] at hlt
      have hi' : i = inputs.length := by omega
      subst hi'
      rw [List.getElem?_append_right le_rfl, Nat.sub_self] at hi
      exact Or.inr ⟨rfl, (Option.some.inj hi).symm⟩
  have hqueue : emitted ++ state'.pending.map PendingEvent.event =
      (emitted ++ state.pending.map PendingEvent.event) ++ [output] := by
    rw [hpend, map_append, append_assoc]
    rfl
  have hqueueLength : (emitted ++ state.pending.map PendingEvent.event).length = inputs.length := by
    rw [length_append, length_map, hqueued]
  constructor
  · rw [length_append, length_append, hlen]
    rfl
  · rw [hpend, length_append, length_append, ← hqueued]
    exact (Nat.add_assoc _ _ _).symm
  · intro i input hinput hnot
    rcases hcases hinput with ⟨hlt, hold⟩ | ⟨rfl, rfl⟩
    · rw [List.getElem?_append_left (by omega)]
      exact h.other i input hold hnot
    · rw [← hlen, List.getElem?_append_right le_rfl, Nat.sub_self, hother hnot]
      rfl
  · intro i input format bytes piece' output' hinput hpay hlines hpiece houtput
    rw [hqueue] at houtput
    rcases hcases hinput with ⟨hlt, hold⟩ | ⟨rfl, rfl⟩
    · rw [List.getElem?_append_left (by omega)] at hpiece houtput
      exact h.reads i input format bytes piece' output' hold hpay hlines hpiece houtput
    · rw [← hlen, List.getElem?_append_right le_rfl, Nat.sub_self] at hpiece
      rw [← hqueueLength, List.getElem?_append_right le_rfl, Nat.sub_self] at houtput
      cases hpiece
      cases houtput
      exact hreads format bytes hpay hlines
  · intro row hrow
    rcases hanchors row hrow with hold | ⟨hanch, format, bytes, hpay, hfmt⟩
    · obtain ⟨input, format, bytes, hinput, hpay, hfmt⟩ := h.anchors row hold
      have hlt := (List.getElem?_eq_some_iff.mp hinput).1
      refine ⟨input, format, bytes, ?_, hpay, hfmt⟩
      rwa [List.getElem?_append_left hlt]
    · refine ⟨event, format, bytes, ?_, hpay, hfmt⟩
      rw [hanch, hqueued, List.getElem?_append_right le_rfl, Nat.sub_self]
      rfl
  · intro row hrow i input hi hinput
    rcases hlast row hrow with hanch | ⟨hfind, hnot⟩
    · -- Nothing follows the new event.
      have hlt := (List.getElem?_eq_some_iff.mp hinput).1
      rw [length_append, length_singleton] at hlt
      omega
    · rcases hcases hinput with ⟨-, hold⟩ | ⟨-, rfl⟩
      · exact h.last row hfind i input hi hold
      · exact hnot

/-- What an event does to the stream's text and its matcher. -/
inductive Taken (codec : Codec) (lines : Bool) (key : StreamKey) (state : RunnerRedactions)
    (event : RunnerEvent) (text : Bytes) : Bytes → Option (StreamKey × RedactionStream) → Prop
  | other : (∀ format bytes, outputPayload codec event ≠ some (key, format, bytes)) →
      Taken codec lines key state event text text (state.streams.find? key)
  | chunk {format : OutputFormat} {bytes out : Bytes} {stream : RedactionStream} :
      outputPayload codec event = some (key, format, bytes) → format ≠ .line →
      (state.streamFor state.pending.length key).push state.values state.prefixTables bytes =
        some (out, stream) →
      Taken codec lines key state event text (text ++ out)
        (if stream.pending.isEmpty then none else some (key, stream))
  | line {bytes : Bytes} : outputPayload codec event = some (key, .line, bytes) →
      Taken codec lines key state event text (text ++ if lines then bytes else []) none
  | ended {boundary : UInt64 × Option UInt64} {row : StreamKey × RedactionStream} :
      boundaryOf event = some boundary → endsStream boundary key = true →
      state.streams.find? key = some row →
      Taken codec lines key state event text (text ++ row.2.finish) none

theorem Written.find?_of_other (h : Written codec state event written₀ streams)
    (hother : ∀ format bytes, outputPayload codec event ≠ some (key, format, bytes)) :
    streams.find? key = state.streams.find? key := by
  cases h with
  | plain _ => rfl
  | @chunk k format bytes out stream _ hpay _ _ _ =>
    have hk : key ≠ k := fun hk => hother format bytes (hk ▸ hpay)
    split
    · exact Table.find?_erase_of_ne hk
    · exact Table.find?_put_of_ne hk
  | line _ _ => rfl
  | @joined k bytes _ _ _ _ hpay _ _ _ =>
    exact Table.find?_erase_of_ne fun hk => hother .line bytes (hk ▸ hpay)

/-- A matcher is an old one, or the one of the chunk's stream. -/
theorem Written.rows (hwell : state.WellFormed) (h : Written codec state event written₀ streams) :
    ∀ row ∈ streams.rows, row ∈ state.streams.rows ∨ row.2.anchor = state.pending.length ∧
      ∃ format bytes, outputPayload codec event = some (row.1, format, bytes) ∧ format ≠ .line := by
  intro row hrow
  cases h with
  | plain _ => exact Or.inl hrow
  | @chunk k format bytes out stream _ hpay hfmt hpush _ =>
    have hmatch := matches_streamFor hwell state.pending.length k
    have hanch := ((push_ensures hwell hmatch bytes).of_ok (orFault_eq_ok.mpr hpush)).2
    rw [streamFor_anchor] at hanch
    split at hrow
    · exact Or.inl (Table.mem_erase.mp hrow).1
    · rcases Table.mem_put.mp hrow with rfl | ⟨hold, -⟩
      · exact Or.inr ⟨hanch, format, bytes, hpay, hfmt⟩
      · exact Or.inl hold
  | line _ _ => exact Or.inl hrow
  | joined _ _ _ _ => exact Or.inl (Table.mem_erase.mp hrow).1

/-- The stream's account once the event is queued and redacted. -/
theorem Accounts.queue (hreadg : Reading codec values key Input Allowed Reads)
    (h : Accounts codec lines key Reads inputs emitted state written) (hwell : state.WellFormed)
    (hvals : state.values = values) {data : Fields}
    (hwrit : Written codec state event written₀ streams) (hstrs : state'.streams = streams)
    (hinput : Input event)
    (hdata : redactMap codec state.values written₀.data = .ok data)
    (hpend : state'.pending = state.pending ++ [⟨{ written₀ with data := data }, n⟩])
    (hline : lines = true → ∀ bytes, outputPayload codec event = some (key, .line, bytes) →
      state.streams.find? key = none)
    (hchunk : ∀ format bytes out stream, outputPayload codec event = some (key, format, bytes) →
      format ≠ .line → (state.streamFor state.pending.length key).push state.values
        state.prefixTables bytes = some (out, stream) → Allowed out) :
    ∃ piece, Accounts codec lines key Reads (inputs ++ [event]) emitted state' (written ++ [piece]) ∧
      Taken codec lines key state event written.flatten (written.flatten ++ piece)
        (streams.find? key) ∧ (¬ IsOutput codec lines key event → piece = []) := by
  rw [hvals] at hdata
  have hrows := hwrit.rows hwell
  rw [← hstrs] at hrows
  by_cases hother : ∀ format bytes, outputPayload codec event ≠ some (key, format, bytes)
  · have hfind := hwrit.find?_of_other hother
    refine ⟨[], h.append hpend (fun _ => rfl) ?_ hrows ?_, ?_⟩
    · exact fun format bytes hpay => absurd hpay (hother format bytes)
    · intro row hrow
      rw [hstrs, hfind] at hrow
      exact Or.inr ⟨hrow, fun ⟨format, bytes, hpay, _⟩ => hother format bytes hpay⟩
    · rw [append_nil, hfind]
      exact ⟨Taken.other hother, fun _ => rfl⟩
  · simp only [ne_eq, not_forall, not_not] at hother
    obtain ⟨format₀, bytes₀, hkey⟩ := hother
    cases hwrit with
    | plain hnone =>
      rw [hkey] at hnone
      cases hnone
    | @chunk k format bytes out stream _ hpay hfmt hpush hset =>
      rw [hkey] at hpay
      cases hpay
      have hfind : (if stream.pending.isEmpty then state.streams.erase key
          else state.streams.put (key, stream)).find? key =
          if stream.pending.isEmpty then none else some (key, stream) := by
        split
        · exact Table.find?_erase_self
        · exact Table.find?_put_self
      have htaken : Taken codec lines key state event written.flatten (written.flatten ++ out)
          (if stream.pending.isEmpty then none else some (key, stream)) :=
        Taken.chunk hkey hfmt hpush
      have hpiece : ¬ IsOutput codec lines key event → out = [] :=
        fun hnot => absurd ⟨format₀, bytes₀, hkey, fun hl => absurd hl hfmt⟩ hnot
      refine ⟨out, h.append hpend hpiece ?_ hrows ?_, by rwa [hfind], hpiece⟩
      · intro format' bytes' hpay' _
        rw [hkey] at hpay'
        cases hpay'
        exact hreadg.chunk hinput hkey hfmt hset (hchunk _ _ _ _ hkey hfmt hpush) hdata
      · intro row hrow
        refine Or.inl ?_
        rw [hstrs, hfind] at hrow
        split at hrow
        · cases hrow
        · cases hrow
          have hmatch := matches_streamFor hwell state.pending.length key
          have hanch := ((push_ensures hwell hmatch bytes₀).of_ok (orFault_eq_ok.mpr hpush)).2
          rwa [streamFor_anchor] at hanch
    | @line k bytes hpay hfind =>
      rw [hkey] at hpay
      cases hpay
      have htaken : Taken codec lines key state event written.flatten
          (written.flatten ++ if lines then bytes₀ else []) none := Taken.line hkey
      rw [← hfind] at htaken
      have hpiece : ¬ IsOutput codec lines key event → (if lines then bytes₀ else []) = [] := by
        intro hnot
        cases lines with
        | true => exact absurd ⟨.line, bytes₀, hkey, fun _ => rfl⟩ hnot
        | false => rfl
      refine ⟨_, h.append hpend hpiece ?_ hrows ?_, htaken, hpiece⟩
      · intro format' bytes' hpay' hlines
        rw [hkey] at hpay'
        cases hpay'
        rw [if_pos (hlines rfl)]
        exact hreadg.line hinput hkey hdata
      · intro row hrow
        rw [hstrs, hfind] at hrow
        cases hrow
    | @joined k bytes out row stream _ hpay hfind hpush hset =>
      rw [hkey] at hpay
      cases hpay
      cases lines with
      | true =>
        rw [hline rfl bytes₀ hkey] at hfind
        cases hfind
      | false =>
        have htaken : Taken codec false key state event written.flatten
            (written.flatten ++ []) none := Taken.line hkey
        refine ⟨[], h.append hpend (fun _ => rfl) ?_ hrows ?_, ?_, fun _ => rfl⟩
        · intro format' bytes' hpay' hlines
          rw [hkey] at hpay'
          cases hpay'
          exact absurd (hlines rfl) Bool.false_ne_true
        · intro row' hrow'
          rw [hstrs, Table.find?_erase_self] at hrow'
          cases hrow'
        · rw [Table.find?_erase_self]
          exact htaken

theorem setOutputData_str {event' : RunnerEvent}
    (h : setOutputData codec event bytes format = .ok event') {name : String}
    (hname : name ≠ "payload") : Fields.str event'.data name = Fields.str event.data name := by
  unfold setOutputData at h
  obtain ⟨_, -, h⟩ := bind_eq_ok.mp h
  obtain ⟨_, -, h⟩ := bind_eq_ok.mp h
  cases h
  unfold Fields.str
  rw [Fields.get_insert, if_neg (Ne.symm hname)]

theorem Written.of_boundary
    {boundary : UInt64 × Option UInt64} (h : Written codec state event written₀ streams)
    (hbound : boundaryOf written₀ = some boundary) :
    outputPayload codec event = none ∧ written₀ = event ∧ streams = state.streams := by
  have hkind : ∀ {payload}, outputPayload codec event = some payload →
      Fields.str event.data "type" = some "output" :=
    fun {payload} hpay => (outputPayload_eq_some.mp
      (hpay : _ = some (payload.1, payload.2.1, payload.2.2))).1
  have hset : ∀ {bytes format}, setOutputData codec event bytes format = .ok written₀ →
      Fields.str event.data "type" = some "output" → boundaryOf written₀ = none :=
    fun hset hkind => boundaryOf_output ((setOutputData_str hset (by decide)).trans hkind)
  cases h with
  | plain hnone => exact ⟨hnone, rfl, rfl⟩
  | chunk hpay _ _ hwrite =>
    rw [hset hwrite (hkind hpay)] at hbound
    cases hbound
  | line hpay _ =>
    rw [boundaryOf_output (hkind hpay)] at hbound
    cases hbound
  | joined hpay _ _ hwrite =>
    rw [hset hwrite (hkind hpay)] at hbound
    cases hbound

/-- One event of the run, from the queue's end to the streams it ends. -/
theorem Accounts.enqueue (hreadg : Reading codec values key Input Allowed Reads)
    (h : Accounts codec lines key Reads inputs emitted state written) (hwell : state.WellFormed)
    (hvals : state.values = values) (hne : ∀ value ∈ values, value ≠ [])
    (henq : state.enqueue codec event eventBytes = .ok state') (hinput : Input event)
    (hline : lines = true → ∀ bytes, outputPayload codec event = some (key, .line, bytes) →
      state.streams.find? key = none)
    (hchunk : ∀ format bytes out stream, outputPayload codec event = some (key, format, bytes) →
      format ≠ .line → (state.streamFor state.pending.length key).push state.values
        state.prefixTables bytes = some (out, stream) → Allowed out)
    (htail : ∀ boundary row, boundaryOf event = some boundary → endsStream boundary key = true →
      state.streams.find? key = some row → ∀ piece,
        written[emitted.length + row.2.anchor]? = some piece → Allowed (piece ++ row.2.finish)) :
    ∃ written', Accounts codec lines key Reads (inputs ++ [event]) emitted state' written' ∧
      Taken codec lines key state event written.flatten written'.flatten
        (state'.streams.find? key) := by
  obtain ⟨written₀, data, n, state₂, hwrit, hdata, hpend, hvalues₂, -, hflush⟩ :=
    enqueue_eq_ok henq
  obtain ⟨piece, haccs, htaken, hpiece⟩ := h.queue hreadg hwell hvals hwrit rfl hinput
    hdata hpend hline hchunk
  have hflat : (written ++ [piece]).flatten = written.flatten ++ piece := by simp
  rw [← hflat] at htaken
  cases hbound : boundaryOf { written₀ with data := data } with
  | none =>
    rw [hbound] at hflush
    cases hflush
    exact ⟨_, haccs, htaken⟩
  | some boundary =>
    rw [hbound] at hflush
    rw [hvals] at hdata
    have hboundary₀ := boundaryOf_redacted hne hdata hbound
    obtain ⟨hnone, rfl, hstrs⟩ := hwrit.of_boundary hboundary₀
    have hother : ∀ format bytes, outputPayload codec written₀ ≠ some (key, format, bytes) := by
      intro format bytes hpay
      rw [hnone] at hpay
      cases hpay
    -- Nothing was written for the boundary itself.
    obtain rfl := hpiece fun ⟨format, bytes, hpay, _⟩ => hother format bytes hpay
    rw [append_nil] at hflat
    have hends : key ∈ state₂.keys.filter (endsStream boundary) → endsStream boundary key = true :=
      fun hmem => (mem_filter.mp hmem).2
    have hdrops : ∀ {s s' : RunnerRedactions} {k : StreamKey}, s.values = values →
        s.prefixTables = state₂.prefixTables → s.flushKey codec k = .ok s' →
        DropsTail codec (fun stream => some stream.finish) s k s' :=
      fun _ _ hstep => flushKey_drops hstep
    obtain ⟨written', haccs', hdrop, hkept⟩ := haccs.drop_all hreadg hdrops
      (hvalues₂.trans hvals) rfl (fun hmem row bytes hrow hbytes piece hpiece => by
        cases hbytes
        rw [hstrs] at hrow
        -- The anchor is before the boundary.
        rw [List.getElem?_append_left (h.anchor_lt hrow)] at hpiece
        exact htail boundary row hboundary₀ (hends hmem) hrow piece hpiece) hflush
    refine ⟨written', haccs', ?_⟩
    by_cases hmem : key ∈ state₂.keys.filter (endsStream boundary)
    · rcases hdrop with ⟨hsame, hfind⟩ | ⟨row, bytes, hrow, hbytes, hsame, hfind⟩
      · rw [hsame, hfind, hflat, hstrs]
        exact Taken.other hother
      · cases hbytes
        rw [hsame, hfind, hflat]
        rw [hstrs] at hrow
        exact Taken.ended hboundary₀ (hends hmem) hrow
    · obtain ⟨hsame, hfind⟩ := hkept hmem
      rw [hsame, hfind, hflat, hstrs]
      exact Taken.other hother

end RunnerRedactions

end OctaCity.Runner
