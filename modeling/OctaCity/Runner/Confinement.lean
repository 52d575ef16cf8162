/-
  OctaCity.Runner.Confinement

  What may leave a stream.  While every matcher that is dropped has no automaton
  inside a value, the text of a stream is always a text that is free of values and
  starts none, followed by what the current matcher has seen.
-/
import OctaCity.Runner.KeptOutput
import OctaCity.Runner.QueueRun

namespace OctaCity.Runner

open Fields Lib List Option

namespace RunnerRedactions

/-- An event that ends a stream: a line of it, or the end of its step or run. -/
def Breaks (codec : Codec) (key : StreamKey) (event : RunnerEvent) : Prop :=
  (∃ bytes, outputPayload codec event = some (key, .line, bytes)) ∨
    ∃ boundary, boundaryOf event = some boundary ∧ endsStream boundary key = true

/-- Nothing ends the stream between two of its chunks. -/
def Unbroken (codec : Codec) (key : StreamKey) (events : List RunnerEvent) : Prop :=
  ∀ before event after, events = before ++ event :: after → Breaks codec key event →
    (∀ chunk ∈ before, ¬ IsOutput codec false key chunk) ∨
      ∀ chunk ∈ after, ¬ IsOutput codec false key chunk

/-- No automaton is inside a value when the stream's matcher is dropped, because
    pressure masks its tail or because a chunk leaves nothing pending. -/
def settles (codec : Codec) (key : StreamKey) : QueueStep → Bool
  | .relief before =>
    (before.streams.find? key).all fun row =>
      (row.2.masked before.values before.prefixTables).all fun marked => !marked.isLive
  | .enqueue before event =>
    (outputPayload codec event).all fun payload =>
      payload.1 ≠ key || payload.2.1 = .line ||
        ((before.streamFor before.pending.length key).push before.values before.prefixTables
          payload.2.2).all fun result => !result.2.pending.isEmpty || !result.2.isLive

/-- The strings that say which stream and format an event has hold no value. -/
def labelsClean (values : List Bytes) (event : RunnerEvent) : Bool :=
  (["type", "command_id", "stream"].all fun name =>
    (str event.data name).all fun text => decide (Avoids values (stringBytes text))) &&
  (object event.data "payload").all fun payload =>
    (str payload "format").all fun text => decide (Avoids values (stringBytes text))

/-- The payload that takes a matcher's tail gets a base64 text without values. -/
def tailPlain (codec : Codec) (key : StreamKey) (before : RunnerRedactions)
    (tail : RedactionStream → Option Bytes) : Bool :=
  (before.streams.find? key).all fun row =>
    (tail row.2).all fun bytes =>
      (before.pending[row.2.anchor]?.bind fun entry => outputPayload codec entry.event).all
        fun payload => decide (Avoids before.values (stringBytes (codec.encode (payload.2.2 ++ bytes))))

/-- No label of a chunk and no base64 text that the step writes for the stream
    holds a value, so that none of them is masked. -/
def writesPlain (codec : Codec) (key : StreamKey) : QueueStep → Bool
  | .relief before =>
    tailPlain codec key before fun stream => stream.finishMasked before.values before.prefixTables
  | .enqueue before event =>
    ((outputPayload codec event).all fun payload =>
      payload.1 ≠ key || payload.2.1 = .line || (labelsClean before.values event &&
        ((before.streamFor before.pending.length key).push before.values before.prefixTables
          payload.2.2).all fun result =>
            decide (Avoids before.values (stringBytes (codec.encode result.1))))) &&
    (boundaryOf event).all fun boundary =>
      !endsStream boundary key || tailPlain codec key before fun stream => some stream.finish

variable {row : StreamKey × RedactionStream} {event : RunnerEvent} {bytes : Bytes}

theorem settles_relief {codec : Codec} {key : StreamKey} {before : RunnerRedactions}
    (h : settles codec key (.relief before) = true)
    {marked : RedactionStream} (hfind : before.streams.find? key = some row)
    (hmasked : row.2.masked before.values before.prefixTables = some marked) :
    marked.isLive = false := by
  rw [settles, hfind, all_some, hmasked, all_some] at h
  simpa using h

theorem settles_enqueue {codec : Codec} {key : StreamKey} {before : RunnerRedactions}
    (h : settles codec key (.enqueue before event) = true)
    {format : OutputFormat} {out : Bytes} {stream : RedactionStream}
    (hpay : outputPayload codec event = some (key, format, bytes)) (hfmt : format ≠ .line)
    (hpush : (before.streamFor before.pending.length key).push before.values before.prefixTables
      bytes = some (out, stream)) (hpend : stream.pending = []) : stream.isLive = false := by
  rw [settles, hpay, all_some, hpush, all_some, hpend] at h
  simpa [hfmt] using h

variable {codec : Codec} {key : StreamKey} {values : List Bytes} {text : Bytes}
  {inputs emitted : List RunnerEvent} {state state' : RunnerRedactions} {written : List Bytes}

theorem cleanOutput_of_labelsClean (h : labelsClean values event = true) :
    CleanOutput values event := by
  obtain ⟨hlabels, hfmt⟩ := Bool.and_eq_true_iff.mp h
  constructor
  · intro name hname text htext
    have hclean := all_eq_true.mp hlabels name hname
    rw [htext, all_some] at hclean
    exact of_decide_eq_true hclean
  · intro payload text hpay htext
    rw [hpay, all_some, htext, all_some] at hfmt
    exact of_decide_eq_true hfmt

/-- What a chunk writes has a base64 text without values. -/
theorem writesPlain_chunk {before : RunnerRedactions}
    (h : writesPlain codec key (.enqueue before event) = true) {format : OutputFormat}
    (hpay : outputPayload codec event = some (key, format, bytes)) (hfmt : format ≠ .line) :
    CleanOutput before.values event ∧ ∀ {out : Bytes} {stream : RedactionStream},
      (before.streamFor before.pending.length key).push before.values before.prefixTables bytes =
        some (out, stream) → Avoids before.values (stringBytes (codec.encode out)) := by
  have hchunk := (Bool.and_eq_true_iff.mp h).1
  rw [hpay, all_some] at hchunk
  simp only [ne_eq, not_true_eq_false, decide_false, hfmt, Bool.false_or] at hchunk
  obtain ⟨hlabels, hpush⟩ := Bool.and_eq_true_iff.mp hchunk
  refine ⟨cleanOutput_of_labelsClean hlabels, fun {out stream} hres => ?_⟩
  rw [hres, all_some] at hpush
  exact of_decide_eq_true hpush

theorem writesPlain_ended {before : RunnerRedactions}
    (h : writesPlain codec key (.enqueue before event) = true) {boundary : UInt64 × Option UInt64}
    (hbound : boundaryOf event = some boundary) (hends : endsStream boundary key = true) :
    tailPlain codec key before (fun stream => some stream.finish) = true := by
  have hended := (Bool.and_eq_true_iff.mp h).2
  rw [hbound, all_some, hends] at hended
  simpa using hended

/-- A chunk's event reads as the piece that was written into it. -/
def Kept (codec : Codec) (values : List Bytes) (key : StreamKey) (format : OutputFormat)
    (piece : Bytes) (event : RunnerEvent) : Prop :=
  format ≠ .line → ReadsExactly codec values key format piece event

theorem keptReading (hcodec : codec.Lawful) (key : StreamKey) :
    Reading codec values key (fun event => IsOutput codec false key event → CleanOutput values event)
      (Plain codec values) (Kept codec values key) where
  chunk hinput hpay hfmt hset hpiece hredact _ :=
    readsExactly_chunk hcodec (hinput ⟨_, _, hpay, fun hline => absurd hline hfmt⟩) hpay
      hset hpiece hredact
  tail hfmt hreads hpay hset hpiece hredact _ :=
    readsExactly_tail hcodec (hreads hfmt) hpay hset hpiece hredact
  line _ _ _ hfmt := absurd rfl hfmt

/-- The piece at the matcher's anchor is the payload queued there. -/
theorem Accounts.tail_plain {tail : RedactionStream → Option Bytes} {piece : Bytes}
    (h : Accounts codec false key (Kept codec values key) inputs emitted state written)
    (hplain : tailPlain codec key state tail = true)
    (hfind : state.streams.find? key = some row) (htail : tail row.2 = some bytes)
    (hpiece : written[emitted.length + row.2.anchor]? = some piece) :
    Avoids state.values (stringBytes (codec.encode (piece ++ bytes))) := by
  obtain ⟨hrow, hkey⟩ := find_mem hfind
  obtain ⟨input, format, payload, hinput, hpay, hfmt⟩ := h.anchors row hrow
  rw [hkey] at hpay
  have hlt : row.2.anchor < state.pending.length := by
    have hanch := h.anchor_lt hfind
    have hqueue := h.queued
    rw [h.length] at hanch
    omega
  have hentry := List.getElem?_eq_getElem hlt
  have hread := (h.reads _ _ _ _ _ _ hinput hpay (fun hline => absurd hline hfmt) hpiece
    (getElem?_queued hentry) hfmt).1
  rw [tailPlain, hfind, all_some, htail, all_some, hentry, bind_some, hread,
    all_some] at hplain
  exact of_decide_eq_true hplain

/-! ## The text of a stream -/

/-- The text is over, or the matcher has followed the end of it. -/
def Guarded (values : List Bytes) (text : Bytes) : Option (StreamKey × RedactionStream) → Prop
  | none => Avoids values text ∧ Unstarted values text
  | some row => ∃ old seen, text = old ++ seen ∧ Avoids values old ∧ Unstarted values old ∧
      Follows values seen row.2 ∧ Avoids values (seen ++ row.2.pending)

/-- The stream has ended after a chunk, so no chunk of it may follow. -/
def Closed (codec : Codec) (key : StreamKey) (values : List Bytes) (inputs : List RunnerEvent)
    (text : Bytes) (row : Option (StreamKey × RedactionStream)) : Prop :=
  Avoids values text ∧ row = none ∧ ∃ before event after, inputs = before ++ event :: after ∧
    Breaks codec key event ∧ ∃ chunk ∈ before, IsOutput codec false key chunk

theorem Guarded.avoids_pending
    (h : Guarded values text (some row)) : Avoids values (text ++ row.2.pending) := by
  obtain ⟨old, seen, rfl, hold, hunst, -, hseen⟩ := h
  rw [append_assoc]
  exact hold.append hunst hseen

theorem Guarded.avoids {row : Option (StreamKey × RedactionStream)} (h : Guarded values text row) :
    Avoids values text := by
  cases row with
  | none => exact h.1
  | some row => exact h.avoids_pending.of_part (prefix_append _ _).isInfix

theorem Guarded.of_same (h : Guarded values text (state.streams.find? key))
    (hsame : SameMatcher key state state') : Guarded values text (state'.streams.find? key) := by
  rcases hsame.elim with ⟨hnone, hnone'⟩ | ⟨row, row', hfind, hfind', hpend, hsame⟩
  · rw [hnone']
    rwa [hnone] at h
  · rw [hfind']
    rw [hfind] at h
    obtain ⟨old, seen, htext, hold, hunst, hfol, hseen⟩ := h
    exact ⟨old, seen, htext, hold, hunst, hsame _ _ hfol, by rwa [hpend]⟩

/-- Masking a tail leaves a text that starts no value, if the matcher settles. -/
theorem Guarded.mask {tables : List (List Nat)} (hprepd : Prepared values tables)
    (h : Guarded values text (some row)) (hbytes : row.2.finishMasked values tables = some bytes) :
    Avoids values (text ++ bytes) ∧
      ((∀ marked, row.2.masked values tables = some marked → marked.isLive = false) →
        Guarded values (text ++ bytes) none) := by
  obtain ⟨old, seen, rfl, hold, hunst, hfol, hseen⟩ := h
  obtain ⟨marked, hmasked, hmarked, hclean, -⟩ := masked_spec hprepd hfol hseen
  unfold RedactionStream.finishMasked at hbytes
  rw [hmasked] at hbytes
  cases hbytes
  have hall : Avoids values (old ++ seen ++ marked.finish) := by
    rw [append_assoc]
    exact hold.append hunst hclean
  refine ⟨hall, fun hsets => ⟨hall, ?_⟩⟩
  rw [append_assoc]
  exact hunst.append (hmarked.unstarted (hsets marked hmasked))

/-- A chunk keeps the text guarded, if a matcher without pending bytes settles. -/
theorem Guarded.chunk (hwell : state.WellFormed)
    (h : Guarded state.values text (state.streams.find? key)) {out : Bytes}
    {stream : RedactionStream}
    (hpush : (state.streamFor state.pending.length key).push state.values state.prefixTables bytes =
      some (out, stream)) : Guarded state.values (text ++ out) (some (key, stream)) ∧
      ((stream.pending = [] → stream.isLive = false) → Guarded state.values (text ++ out)
          (if stream.pending.isEmpty then none else some (key, stream))) := by
  -- The matcher that takes the chunk follows the end of the text.
  obtain ⟨old, seen, htext, hold, hunst, hfol, hseen⟩ :
      Guarded state.values text (some (key, state.streamFor state.pending.length key)) := by
    unfold streamFor
    cases hfind : state.streams.find? key with
    | none =>
      rw [hfind] at h
      exact ⟨text, [], (append_nil _).symm, h.1, h.2, follows_new _,
        avoids_nil hwell.prepared.ne_nil⟩
    | some row =>
      rw [hfind] at h
      obtain ⟨old, seen, htext, hold, hunst, hfol, hseen⟩ := h
      exact ⟨old, seen, htext, hold, hunst,
        ⟨hfol.base, hfol.history, hfol.states⟩, hseen⟩
  subst htext
  obtain ⟨out', stream', hpush', hfol', hseen', -, -⟩ :=
    push_spec hwell.prepared hfol hseen bytes
  change (state.streamFor state.pending.length key).push _ _ _ = _ at hpush'
  rw [hpush] at hpush'
  cases hpush'
  have hguard : Guarded state.values (old ++ seen ++ out) (some (key, stream)) :=
    ⟨old, seen ++ out, append_assoc _ _ _, hold, hunst, hfol', hseen'⟩
  refine ⟨hguard, fun hsets => ?_⟩
  split
  · rename_i hempty
    have hpend : stream.pending = [] := isEmpty_iff.mp hempty
    refine ⟨hguard.avoids, ?_⟩
    have hdone := hfol'.unstarted (hsets hpend)
    rw [hpend, append_nil] at hdone
    rw [append_assoc]
    exact hunst.append hdone
  · exact hguard

/-! ## Steps of a run -/

theorem Unbroken.earlier {events later : List RunnerEvent}
    (h : Unbroken codec key (events ++ later)) : Unbroken codec key events := by
  intro before event after hsplit hbreaks
  have hsplit' : events ++ later = before ++ event :: (after ++ later) := by
    rw [hsplit, append_assoc, cons_append]
  exact (h before event _ hsplit' hbreaks).imp_right
    fun hafter chunk hchunk => hafter chunk (mem_append_left _ hchunk)

/-- A matcher was made for a chunk of its stream. -/
theorem Accounts.exists_chunk {Reads : OutputFormat → Bytes → RunnerEvent → Prop}
    (h : Accounts codec false key Reads inputs emitted state written)
    (hfind : state.streams.find? key = some row) :
    ∃ chunk ∈ inputs, IsOutput codec false key chunk := by
  obtain ⟨hrow, hkey⟩ := find_mem hfind
  obtain ⟨input, format, bytes, hinput, hpay, hfmt⟩ := h.anchors row hrow
  rw [hkey] at hpay
  exact ⟨input, mem_of_getElem? hinput, format, bytes, hpay,
    fun hline => absurd hline hfmt⟩

/-- The stream's text is guarded, or the stream is over. -/
def Safe (codec : Codec) (key : StreamKey) (values : List Bytes) (inputs : List RunnerEvent)
    (text : Bytes) (row : Option (StreamKey × RedactionStream)) : Prop :=
  Guarded values text row ∨ Closed codec key values inputs text row

theorem Safe.avoids {row : Option (StreamKey × RedactionStream)}
    (h : Safe codec key values inputs text row) : Avoids values text :=
  h.elim Guarded.avoids And.left

theorem Safe.guarded
    (h : Safe codec key values inputs text (some row)) : Guarded values text (some row) := by
  rcases h with h | ⟨-, hnone, -⟩
  · exact h
  · cases hnone

theorem Safe.of_same (h : Safe codec key values inputs text (state.streams.find? key))
    (hsame : SameMatcher key state state') :
    Safe codec key values inputs text (state'.streams.find? key) := by
  rcases h with hguard | ⟨havoid, hnone, hover⟩
  · exact Or.inl (hguard.of_same hsame)
  · exact Or.inr ⟨havoid, hsame.none hnone, hover⟩

/-- What one event adds to a stream keeps the text safe. -/
theorem Taken.safe (hwell : state.WellFormed) {text' : Bytes}
    {row' : Option (StreamKey × RedactionStream)}
    (htaken : Taken codec false key state event text text' row')
    (hunbr : Unbroken codec key (inputs ++ [event]))
    (hchunk : ∀ row, state.streams.find? key = some row →
      ∃ chunk ∈ inputs, IsOutput codec false key chunk)
    (hsets : settles codec key (.enqueue state event) = true)
    (h : Safe codec key state.values inputs text (state.streams.find? key)) :
    Safe codec key state.values (inputs ++ [event]) text' row' := by
  have hextend : ∀ {text : Bytes} {row : Option (StreamKey × RedactionStream)},
      Closed codec key state.values inputs text row →
      Closed codec key state.values (inputs ++ [event]) text row := by
    rintro text row ⟨havoid, hnone, before, brk, after, rfl, hbreaks⟩
    exact ⟨havoid, hnone, before, brk, after ++ [event], by simp, hbreaks⟩
  cases htaken with
  | other _ => exact h.imp_right hextend
  | @chunk format bytes out stream hpay hfmt hpush =>
    rcases h with hguard | ⟨-, -, before, brk, after, rfl, hbreaks, chunk, hmem, houtput⟩
    · exact Or.inl ((hguard.chunk hwell hpush).2
        fun hpend => settles_enqueue hsets hpay hfmt hpush hpend)
    · -- A chunk after the end of the stream.
      rcases hunbr before brk (after ++ [event]) (by simp) hbreaks with hbef | hafter
      · exact absurd houtput (hbef chunk hmem)
      · exact absurd ⟨format, bytes, hpay, fun hline => absurd hline hfmt⟩
          (hafter event (mem_append_right _ mem_cons_self))
  | @line bytes hpay =>
    rw [if_neg Bool.false_ne_true, append_nil]
    cases hfind : state.streams.find? key with
    | none =>
      rw [hfind] at h
      exact h.imp_right hextend
    | some row =>
      exact Or.inr ⟨h.avoids, rfl, inputs, event, [], rfl, Or.inl ⟨bytes, hpay⟩, hchunk row hfind⟩
  | @ended boundary row hbound hends hfind =>
    rw [hfind] at h
    exact Or.inr ⟨h.guarded.avoids_pending, rfl, inputs, event, [], rfl,
      Or.inr ⟨boundary, hbound, hends⟩, hchunk row hfind⟩

/-- The account of a stream whose text is safe. -/
def Confines (codec : Codec) (key : StreamKey) (values : List Bytes)
    (inputs emitted : List RunnerEvent) (state : RunnerRedactions) : Prop :=
  Unbroken codec key inputs → ∃ written,
    Accounts codec false key (Kept codec values key) inputs emitted state written ∧
      Safe codec key values inputs written.flatten (state.streams.find? key)

theorem confines_invariant (hcodec : codec.Lawful) (hne : ∀ value ∈ values, value ≠ [])
    (key : StreamKey) : RunInvariant codec values
      (fun step => settles codec key step = true ∧ writesPlain codec key step = true)
      (Confines codec key values) where
  release hwell _ h hrel hunbr := by
    obtain ⟨written, haccs, hsafe⟩ := h hunbr
    obtain ⟨haccs', hsame⟩ := haccs.releaseResolved hwell hrel
    exact ⟨written, haccs', hsafe.of_same hsame⟩
  relief {inputs emitted out state state'} hwell hvals h hallows hrelv hunbr := by
    obtain ⟨written, haccs, hsafe⟩ := h hunbr
    subst hvals
    have hmask : ∀ row bytes, state.streams.find? key = some row →
        row.2.finishMasked state.values state.prefixTables = some bytes →
        Guarded state.values (written.flatten ++ bytes) none := by
      intro row bytes hfind hbytes
      rw [hfind] at hsafe
      exact (hsafe.guarded.mask hwell.prepared hbytes).2 fun marked =>
        settles_relief hallows.1 hfind
    obtain ⟨written', haccs', hcases⟩ := haccs.relieveIf (keptReading hcodec key) hwell rfl
      (fun _ row bytes hfind hbytes piece hpiece =>
        ⟨(hmask row bytes hfind hbytes).1.of_part (haccs.anchored_infix hfind hpiece bytes),
          haccs.tail_plain hallows.2 hfind hbytes hpiece⟩)
      hrelv
    refine ⟨written', haccs', ?_⟩
    rcases hcases with ⟨hflat, hsame⟩ | ⟨-, row, bytes, hfind, hbytes, hflat, hnone⟩
    · rw [hflat]
      exact hsafe.of_same hsame
    · rw [hflat, hnone]
      exact Or.inl (hmask row bytes hfind hbytes)
  enqueue {inputs emitted event eventBytes state state'} hwell hvals h hallows henq
      hunbr := by
    obtain ⟨written, haccs, hsafe⟩ := h hunbr.earlier
    subst hvals
    have hsafe' : ∀ text row, Taken codec false key state event written.flatten text row →
        Safe codec key state.values (inputs ++ [event]) text row := fun text row htaken =>
      htaken.safe hwell hunbr (fun _ => haccs.exists_chunk) hallows.1 hsafe
    obtain ⟨written', haccs', htaken⟩ := haccs.enqueue (keptReading hcodec key) hwell rfl
      hne henq (fun ⟨_, _, hpay, hline⟩ => (writesPlain_chunk hallows.2 hpay
        fun hfmt => absurd (hline hfmt) Bool.false_ne_true).1)
      (fun hfalse => absurd hfalse Bool.false_ne_true)
      (fun _ _ _ _ hpay hfmt hpush =>
        ⟨(hsafe' _ _ (Taken.chunk hpay hfmt hpush)).avoids.of_part
            (suffix_append _ _).isInfix,
          (writesPlain_chunk hallows.2 hpay hfmt).2 hpush⟩)
      (fun _ _ hbound hends hfind _ hpiece =>
        ⟨(hsafe' _ _ (Taken.ended hbound hends hfind)).avoids.of_part
            (haccs.anchored_infix hfind hpiece _),
          haccs.tail_plain (writesPlain_ended hallows.2 hbound hends) hfind rfl hpiece⟩)
    exact ⟨written', haccs', hsafe' _ _ htaken⟩

/-! ## What is emitted -/

theorem Confines.start (hne : ∀ value ∈ state.values, value ≠ []) (hstrs : state.streams.rows = [])
    (hpend : state.pending = []) : Confines codec key state.values [] [] state := by
  intro _
  have hnone : state.streams.find? key = none :=
    Table.find?_eq_none_iff.mpr fun row hrow => by rw [hstrs] at hrow; cases hrow
  refine ⟨[], Accounts.start hstrs hpend, Or.inl ?_⟩
  rw [hnone]
  exact ⟨avoids_nil hne, unstarted_nil⟩

/-- What a run emits for a stream that settles is a text without values. -/
theorem Confines.payloads (hcodec : codec.Lawful) (hwell : state.WellFormed)
    {events : List (RunnerEvent × Allocation)} {last : RunnerRedactions} {steps : List QueueStep}
    (hstart : Confines codec key state.values [] [] state)
    (hunbr : Unbroken codec key (events.map Prod.fst))
    (hrun : state.run codec events = .ok (emitted, last))
    (hsteps : state.runSteps codec events = .ok steps)
    (hallows : ∀ step ∈ steps, settles codec key step = true ∧ writesPlain codec key step = true)
    (hplain : ∀ out before, state.runEvents codec events = .ok (out, before) →
      tailPlain codec key before (fun stream => some stream.finish) = true) :
    ∃ pieces : List Bytes, payloadsOf codec false key (events.map Prod.fst) emitted = pieces.map some ∧
      Avoids state.values pieces.flatten := by
  have hne := hwell.prepared.ne_nil
  have hempty : last.pending = [] := ((run_ensures hwell events).of_ok hrun).2.2
  obtain ⟨⟨out₁, state₁⟩, hevs, hrun⟩ := bind_eq_ok.mp hrun
  obtain ⟨⟨out₂, state₂⟩, hfin, hrun⟩ := bind_eq_ok.mp hrun
  cases hrun
  have hwell₁ := (runEvents_ensures hwell events).of_ok hevs
  have hconfines := (confines_invariant hcodec hne key).runEvents hwell rfl hstart hsteps hallows
    hevs
  rw [nil_append, nil_append] at hconfines
  obtain ⟨written, haccs, hsafe⟩ := hconfines hunbr
  have htail : Avoids state.values (written.flatten ++
      ((state₁.streams.find? key).map fun row => row.2.finish).getD []) := by
    cases hfind : state₁.streams.find? key with
    | none =>
      rw [map_none, getD_none, append_nil]
      exact hsafe.avoids
    | some row =>
      rw [hfind] at hsafe
      exact hsafe.guarded.avoids_pending
  obtain ⟨written', haccs', hflat⟩ := haccs.finishEvents (keptReading hcodec key)
    hwell₁.wellFormed hwell₁.values
    (fun row hfind piece hpiece => by
      rw [hfind] at htail
      refine ⟨htail.of_part (haccs.anchored_infix hfind hpiece _), ?_⟩
      rw [← hwell₁.values]
      exact haccs.tail_plain (hplain _ _ hevs) hfind rfl hpiece) hfin
  obtain ⟨pieces, hpays, hpieces⟩ := haccs'.payloadsOf hempty
    fun format piece output hline hreads => by
      rw [(hreads fun hl => absurd (hline hl) Bool.false_ne_true).1]
      rfl
  refine ⟨pieces, hpays, ?_⟩
  rwa [hpieces, hflat]

/-- In a run in which no matcher of a stream is dropped inside a value and no base64
    text of it holds one, the stream's chunks leave as payloads whose concatenation
    holds no value; and no run indexes past an end. -/
theorem no_value_emitted (hcodec : codec.Lawful) (values : List Bytes) (key : StreamKey)
    (events : List (RunnerEvent × Allocation))
    (hunbr : Unbroken codec key (events.map Prod.fst)) :
    ∃ state, new values = some state ∧ state.run codec events ≠ .error .index ∧
      ∀ emitted last, state.run codec events = .ok (emitted, last) →
        ∃ steps, state.runSteps codec events = .ok steps ∧
          ((∀ step ∈ steps, settles codec key step = true ∧ writesPlain codec key step = true) →
            (∀ out before, state.runEvents codec events = .ok (out, before) →
              tailPlain codec key before (fun stream => some stream.finish) = true) →
            ∃ pieces : List Bytes,
              payloadsOf codec false key (events.map Prod.fst) emitted = pieces.map some ∧
              ∀ value ∈ values, value ≠ [] → ¬ value <:+: pieces.flatten) := by
  obtain ⟨state, hnew, hwell, hpend, hstrs, hvals, -⟩ := new_spec values
  refine ⟨state, hnew, fun herror => (run_ensures hwell events).of_error herror (Or.inl rfl), ?_⟩
  intro emitted last hrun
  obtain ⟨result, hevs, -⟩ := bind_eq_ok.mp hrun
  obtain ⟨steps, hsteps⟩ := runSteps_isOk hevs
  refine ⟨steps, hsteps, fun hallows hplain => ?_⟩
  have hstart : Confines codec key state.values [] [] state :=
    Confines.start hwell.prepared.ne_nil hstrs hpend
  obtain ⟨pieces, hpays, havoid⟩ :=
    hstart.payloads hcodec hwell hunbr hrun hsteps hallows hplain
  exact ⟨pieces, hpays, fun value hvalue hne => havoid value (hvals value hvalue hne)⟩

/-! ## A chunk is no end of its stream -/

theorem unbroken_of_chunks {events : List RunnerEvent}
    (h : ∀ event ∈ events, isOutput codec false key event = true) : Unbroken codec key events := by
  intro before event after hsplit hbreaks
  exfalso
  obtain ⟨format, bytes, hpay, hline⟩ := isOutput_iff.mp
    (h event (by rw [hsplit]; exact mem_append_right _ mem_cons_self))
  rcases hbreaks with ⟨bytes', hpay'⟩ | ⟨boundary, hbound, -⟩
  · rw [hpay] at hpay'
    cases hpay'
    exact absurd (hline rfl) Bool.false_ne_true
  · rw [boundaryOf_output (outputPayload_eq_some.mp hpay).1] at hbound
    cases hbound

namespace Console

/-- `ab`, split over two chunks, never appears; the `a` at the end is held back to
    the last flush. -/
theorem split_value_masked : ∃ state emitted last, new [[97, 98]] = some state ∧
      state.run standard (chunks [[120, 97], [98, 121], [122, 97]]) = .ok (emitted, last) ∧
        ∃ pieces : List Bytes, payloadsOf standard false stdout
            ((chunks [[120, 97], [98, 121], [122, 97]]).map Prod.fst) emitted = pieces.map some ∧
          ¬ [97, 98] <:+: pieces.flatten := by
  obtain ⟨state, hnew, -, hrun⟩ := no_value_emitted standard_lawful [[97, 98]] stdout
    (chunks [[120, 97], [98, 121], [122, 97]]) (unbroken_of_chunks (by decide +kernel))
  have hruns : ((new [[97, 98]]).bind fun state =>
      (state.run standard (chunks [[120, 97], [98, 121], [122, 97]])).toOption).isSome = true := by
    decide +kernel
  rw [hnew, bind_some] at hruns
  obtain ⟨⟨emitted, last⟩, hok⟩ : ∃ result,
      state.run standard (chunks [[120, 97], [98, 121], [122, 97]]) = .ok result := by
    cases hres : state.run standard (chunks [[120, 97], [98, 121], [122, 97]]) with
    | error _ =>
      rw [hres] at hruns
      cases hruns
    | ok result => exact ⟨result, rfl⟩
  refine ⟨state, emitted, last, hnew, hok, ?_⟩
  obtain ⟨steps, hsteps, hconfined⟩ := hrun emitted last hok
  have hallow : ((new [[97, 98]]).bind fun state =>
      (state.runSteps standard (chunks [[120, 97], [98, 121], [122, 97]])).toOption.map fun steps =>
        steps.all fun step => settles standard stdout step && writesPlain standard stdout step) =
          some true := by
    decide +kernel
  have hplain : ((new [[97, 98]]).bind fun state =>
      (state.runEvents standard (chunks [[120, 97], [98, 121], [122, 97]])).toOption.map fun result =>
        tailPlain standard stdout result.2 fun stream => some stream.finish) = some true := by
    decide +kernel
  rw [hnew, bind_some] at hplain hallow
  rw [hsteps] at hallow
  obtain ⟨pieces, hpays, hpieces⟩ := hconfined
    (fun step hstep => Bool.and_eq_true_iff.mp
      (all_eq_true.mp (Option.some.inj hallow) step hstep))
    (fun out before hevs => by
      rw [hevs] at hplain
      exact Option.some.inj hplain)
  exact ⟨pieces, hpays, hpieces [97, 98] mem_cons_self (by decide)⟩

/-- With `ab`, `cd`, `*` and `#` protected, `acd` leaves `a` and drops the
    matcher; the `b` of the next chunk completes a value.  With `ab`, `cd` and
    `Y1o=`, the payload between `a` and `b` is masked. -/
theorem replacement_completes_value :
    emittedFor false [[97, 98], [99, 100], [42], [35]] [[97, 99, 100], [98]] = some [some [97], some [98]] ∧
      Unbroken standard stdout ((chunks [[97, 99, 100], [98]]).map Prod.fst) ∧
      [97, 98] <:+: [[97], [98]].flatten ∧
      emittedFor false [[97, 98], [99, 100], [89, 49, 111, 61]] [[97, 99], [90], [98]] =
        some [some [97], none, some [98]] :=
  ⟨by decide +kernel, unbroken_of_chunks (by decide +kernel), ⟨[], [], rfl⟩, by decide +kernel⟩

end Console

end RunnerRedactions

end OctaCity.Runner
