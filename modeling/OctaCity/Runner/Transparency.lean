/-
  OctaCity.Runner.Transparency

  Redaction keeps what holds no protected value.  While no string, no text of
  the stream and no encoding of a part of it holds one, the text written for the
  stream and what its matcher holds back are together the text that came in.
-/
import OctaCity.Runner.KeptOutput
import OctaCity.Runner.QueueRun

namespace OctaCity.Runner

open Fields Lib List

/-! ## Strings of an event -/

mutual

/-- The strings that redaction looks at. -/
def Json.strings : Json → List String
  | .string text => [text]
  | .array items => itemsStrings items
  | .object fields => fieldsStrings fields
  | .null => []
  | .bool _ => []
  | .number _ => []

def itemsStrings : List Json → List String
  | [] => []
  | item :: items => item.strings ++ itemsStrings items

def fieldsStrings : List (String × Json) → List String
  | [] => []
  | (_, value) :: fields => value.strings ++ fieldsStrings fields

end

variable {codec : Codec} {values : List Bytes} {fields fields' : Fields}

variable {name : String}

theorem mem_fieldsStrings {value : Json} (h : get fields name = some value) :
    ∀ text ∈ value.strings, text ∈ fieldsStrings fields := by
  induction fields with
  | nil => cases h
  | cons field fields ih =>
    obtain ⟨name', value'⟩ := field
    rw [get_cons] at h
    rw [fieldsStrings]
    split at h
    · cases h
      exact fun text htext => mem_append_left _ htext
    · exact fun text htext => mem_append_right _ (ih h text htext)

theorem str_mem_strings {text : String} (h : str fields name = some text) :
    text ∈ fieldsStrings fields := by
  obtain ⟨value, hget, hstr⟩ := Option.bind_eq_some_iff.mp h
  cases value <;> cases hstr
  exact mem_fieldsStrings hget text (by rw [Json.strings]; exact mem_cons_self)

theorem object_mem_strings {inner : Fields} (h : object fields name = some inner) :
    ∀ text ∈ fieldsStrings inner, text ∈ fieldsStrings fields := by
  obtain ⟨value, hget, hobj⟩ := Option.bind_eq_some_iff.mp h
  cases value <;> cases hobj
  exact fun text htext => mem_fieldsStrings hget text (by rw [Json.strings]; exact htext)

namespace RunnerRedactions

variable {event : RunnerEvent} {format : OutputFormat} {bytes : Bytes}

def CleanStrings (values : List Bytes) (event : RunnerEvent) : Prop :=
  ∀ text ∈ fieldsStrings event.data, Avoids values (stringBytes text)

theorem cleanOutput_of_strings (h : CleanStrings values event) : CleanOutput values event where
  labels _ _ text htext := h text (str_mem_strings htext)
  format _ text hpay htext := h text (object_mem_strings hpay text (str_mem_strings htext))

theorem exactReading (hcodec : codec.Lawful) (key : StreamKey) :
    Reading codec values key (CleanStrings values) (Plain codec values)
      (ReadsExactly codec values key) where
  chunk hinput hpay _ hset hpiece hredact :=
    readsExactly_chunk hcodec (cleanOutput_of_strings hinput) hpay hset hpiece hredact
  tail _ hreads hpay hset hpiece hredact :=
    readsExactly_tail hcodec hreads hpay hset hpiece hredact
  line {input bytes data} hinput hpay hredact := by
    have hbytes : Avoids values bytes := by
      obtain ⟨-, payload, text, hobj, -, htext, hbytes, -⟩ := outputPayload_eq_some.mp hpay
      have hsame : stringBytes text = bytes := Option.some.inj hbytes
      rw [← hsame]
      exact hinput text (object_mem_strings hobj text (str_mem_strings htext))
    exact outputPayload_kept hcodec (cleanOutput_of_strings hinput) hpay hbytes
      (fun hline => absurd rfl hline) hredact

/-! ## The text of a stream -/

/-- The bytes an event brings to a stream. -/
def eventText (codec : Codec) (key : StreamKey) (event : RunnerEvent) : Bytes :=
  match outputPayload codec event with
  | some (key', _, bytes) => if key' = key then bytes else []
  | none => []

def textOf (codec : Codec) (key : StreamKey) (events : List RunnerEvent) : Bytes :=
  events.flatMap (eventText codec key)

/-- The step neither relieves pressure nor joins a tail to a following line. -/
def keepsText (codec : Codec) (key : StreamKey) : QueueStep → Bool
  | .relief _ => false
  | .enqueue before event =>
    (outputPayload codec event).all fun payload =>
      payload.1 ≠ key || payload.2.1 ≠ .line || !before.streams.contains key

variable {key : StreamKey} {inputs emitted : List RunnerEvent}
  {state state' : RunnerRedactions} {written : List Bytes} {text whole : Bytes}

theorem textOf_concat (events : List RunnerEvent) (event : RunnerEvent) :
    textOf codec key (events ++ [event]) = textOf codec key events ++ eventText codec key event := by
  simp [textOf]

theorem eventText_output (h : outputPayload codec event = some (key, format, bytes)) :
    eventText codec key event = bytes := by
  unfold eventText
  rw [h]
  exact if_pos rfl

theorem eventText_other
    (h : ∀ format bytes, outputPayload codec event ≠ some (key, format, bytes)) :
    eventText codec key event = [] := by
  unfold eventText
  rcases hpay : outputPayload codec event with _ | ⟨key', format, bytes⟩
  · rfl
  · exact if_neg fun hkey : key' = key => h format bytes (hkey ▸ hpay)

theorem eventText_boundary {boundary : UInt64 × Option UInt64}
    (h : boundaryOf event = some boundary) : eventText codec key event = [] := by
  refine eventText_other fun format bytes hpay => ?_
  rw [boundaryOf_output (outputPayload_eq_some.mp hpay).1] at h
  cases h

theorem keepsText_line (h : keepsText codec key (.enqueue state event) = true)
    (hpay : outputPayload codec event = some (key, .line, bytes)) :
    state.streams.find? key = none := by
  rw [keepsText, hpay, Option.all_some] at h
  have hcont : state.streams.contains key = false := by simpa using h
  cases hfind : state.streams.find? key with
  | none => rfl
  | some row =>
    obtain ⟨hrow, hkey⟩ := find_mem hfind
    have htrue := (Table.contains_iff state.streams key).mpr ⟨row, hrow, hkey⟩
    rw [htrue] at hcont
    cases hcont

/-- What is written and what the matcher holds back are the whole text. -/
def Holds (values : List Bytes) (text whole : Bytes) : Option (StreamKey × RedactionStream) → Prop
  | none => text = whole
  | some row => text ++ row.2.pending = whole ∧
      ∃ old seen, text = old ++ seen ∧ Follows values seen row.2

theorem Holds.isPrefix {row : Option (StreamKey × RedactionStream)} (h : Holds values text whole row) :
    text <+: whole := by
  cases row with
  | none => exact (h : text = whole) ▸ prefix_rfl
  | some row => exact h.1 ▸ prefix_append _ _

/-- One event adds its bytes to the whole. -/
theorem Taken.holds (hwell : state.WellFormed) {text' : Bytes}
    {row' : Option (StreamKey × RedactionStream)}
    (htaken : Taken codec true key state event text text' row')
    (hkeeps : keepsText codec key (.enqueue state event) = true)
    (havoid : Avoids state.values (whole ++ eventText codec key event))
    (h : Holds state.values text whole (state.streams.find? key)) :
    Holds state.values text' (whole ++ eventText codec key event) row' := by
  cases htaken with
  | other hother => rwa [eventText_other hother, append_nil]
  | @chunk format bytes out stream hpay hfmt hpush =>
    rw [eventText_output hpay] at havoid ⊢
    -- The matcher that takes the chunk follows the end of the text.
    obtain ⟨hwhole, old, seen, htext, hfol⟩ :
        Holds state.values text whole (some (key, state.streamFor state.pending.length key)) := by
      unfold streamFor
      cases hfind : state.streams.find? key with
      | none =>
        rw [hfind] at h
        have hsame : text = whole := h
        refine ⟨?_, text, [], (append_nil _).symm, follows_new _⟩
        rw [hsame]
        exact append_nil _
      | some row =>
        rw [hfind] at h
        obtain ⟨hwhole, old, seen, htext, hfol⟩ := h
        exact ⟨hwhole, old, seen, htext, ⟨hfol.base, hfol.history, hfol.states⟩⟩
    change text ++ (state.streamFor state.pending.length key).pending = whole at hwhole
    change Follows state.values seen (state.streamFor state.pending.length key) at hfol
    have hseen : Avoids state.values
        (seen ++ ((state.streamFor state.pending.length key).pending ++ bytes)) := by
      rw [← hwhole, htext] at havoid
      refine havoid.of_part ⟨old, [], ?_⟩
      simp
    obtain ⟨out', stream', hpush', hfol', -, -, hkept⟩ := push_spec hwell.prepared hfol
      (hseen.of_part ⟨[], bytes, by simp⟩) bytes
    rw [hpush] at hpush'
    cases hpush'
    have hall : text ++ out ++ stream.pending = whole ++ bytes := by
      rw [append_assoc, hkept hseen, ← append_assoc, hwhole]
    split
    · rename_i hempty
      rw [isEmpty_iff.mp hempty, append_nil] at hall
      exact hall
    · exact ⟨hall, old, seen ++ out, by rw [htext, append_assoc], hfol'⟩
  | @line bytes hpay =>
    rw [keepsText_line hkeeps hpay] at h
    have hsame : text = whole := h
    rw [eventText_output hpay, hsame]
    exact rfl
  | @ended boundary row hbound hends hfind =>
    rw [hfind] at h
    rw [eventText_boundary hbound, append_nil]
    exact h.1

theorem Holds.of_same (h : Holds values text whole (state.streams.find? key))
    (hsame : SameMatcher key state state') : Holds values text whole (state'.streams.find? key) := by
  rcases hsame.elim with ⟨hnone, hnone'⟩ | ⟨row, row', hfind, hfind', hpend, hsame⟩
  · rw [hnone']
    rwa [hnone] at h
  · rw [hfind']
    rw [hfind] at h
    obtain ⟨hwhole, old, seen, htext, hfol⟩ := h
    exact ⟨by rwa [hpend], old, seen, htext, hsame _ _ hfol⟩

/-! ## Runs -/

/-- Inputs whose strings, and whose text in a stream, hold no value. -/
structure Untouched (codec : Codec) (values : List Bytes) (key : StreamKey)
    (inputs : List RunnerEvent) : Prop where
  strings : ∀ event ∈ inputs, CleanStrings values event
  text : Avoids values (textOf codec key inputs)
  encodings : ∀ piece, piece <:+: textOf codec key inputs →
    Avoids values (stringBytes (codec.encode piece))

theorem Untouched.plain (h : Untouched codec values key inputs) {piece : Bytes}
    (hpiece : piece <:+: textOf codec key inputs) : Plain codec values piece :=
  ⟨h.text.of_part hpiece, h.encodings piece hpiece⟩

theorem Untouched.init (h : Untouched codec values key (inputs ++ [event])) :
    Untouched codec values key inputs := by
  have hpart : textOf codec key inputs <:+: textOf codec key (inputs ++ [event]) := by
    rw [textOf_concat]
    exact (prefix_append _ _).isInfix
  exact ⟨fun e he => h.strings e (mem_append_left _ he), h.text.of_part hpart,
    fun piece hpiece => h.encodings piece (hpiece.trans hpart)⟩

/-- The account of a stream that passes through unchanged. -/
def Passes (codec : Codec) (values : List Bytes) (key : StreamKey)
    (inputs emitted : List RunnerEvent) (state : RunnerRedactions) : Prop :=
  Untouched codec values key inputs → ∃ written,
    Accounts codec true key (ReadsExactly codec values key) inputs emitted state written ∧
      Holds values written.flatten (textOf codec key inputs) (state.streams.find? key)

theorem passes_invariant (hcodec : codec.Lawful) (hne : ∀ value ∈ values, value ≠ [])
    (key : StreamKey) : RunInvariant codec values (fun step => keepsText codec key step = true)
      (Passes codec values key) where
  release hwell _ h hrel hunto := by
    obtain ⟨written, haccs, hholds⟩ := h hunto
    obtain ⟨haccs', hsame⟩ := haccs.releaseResolved hwell hrel
    exact ⟨written, haccs', hholds.of_same hsame⟩
  relief _ _ _ hkeeps _ := absurd hkeeps Bool.false_ne_true
  enqueue {inputs emitted event eventBytes state state'} hwell hvals h hkeeps henq
      hunto := by
    obtain ⟨written, haccs, hholds⟩ := h hunto.init
    subst hvals
    have havoid := hunto.text
    rw [textOf_concat] at havoid
    -- What is written is a part of the text that has come in.
    have hpart : ∀ {text row}, Taken codec true key state event written.flatten text row →
        text <:+: textOf codec key (inputs ++ [event]) := fun htaken => by
      rw [textOf_concat]
      exact (htaken.holds hwell hkeeps havoid hholds).isPrefix.isInfix
    obtain ⟨written', haccs', htaken⟩ := haccs.enqueue (exactReading hcodec key) hwell rfl
      hne henq (hunto.strings event (mem_append_right _ mem_cons_self))
      (fun _ bytes hpay => keepsText_line hkeeps hpay)
      (fun _ _ _ _ hpay hfmt hpush => hunto.plain
        ((suffix_append _ _).isInfix.trans (hpart (Taken.chunk hpay hfmt hpush))))
      (fun _ _ hbound hends hfind piece hpiece => hunto.plain
        ((haccs.anchored_infix hfind hpiece _).trans (hpart (Taken.ended hbound hends hfind))))
    refine ⟨written', haccs', ?_⟩
    rw [textOf_concat]
    exact htaken.holds hwell hkeeps havoid hholds

theorem Passes.start (hstrs : state.streams.rows = []) (hpend : state.pending = []) :
    Passes codec state.values key [] [] state := by
  intro _
  have hnone : state.streams.find? key = none :=
    Table.find?_eq_none_iff.mpr fun row hrow => by rw [hstrs] at hrow; cases hrow
  refine ⟨[], Accounts.start hstrs hpend, ?_⟩
  rw [hnone]
  exact rfl

/-- A run in which the stream passes through emits the stream's own bytes. -/
theorem Passes.payloads (hcodec : codec.Lawful) (hwell : state.WellFormed)
    (hstart : Passes codec state.values key [] [] state) {events : List (RunnerEvent × Allocation)}
    {last : RunnerRedactions} {steps : List QueueStep}
    (hrun : state.run codec events = .ok (emitted, last))
    (hsteps : state.runSteps codec events = .ok steps)
    (hkeeps : ∀ step ∈ steps, keepsText codec key step = true)
    (hunto : Untouched codec state.values key (events.map Prod.fst)) :
    ∃ pieces : List Bytes, payloadsOf codec true key (events.map Prod.fst) emitted = pieces.map some ∧
      pieces.flatten = textOf codec key (events.map Prod.fst) := by
  have hempty : last.pending = [] := ((run_ensures hwell events).of_ok hrun).2.2
  obtain ⟨⟨out₁, state₁⟩, hevs, hrun⟩ := bind_eq_ok.mp hrun
  obtain ⟨⟨out₂, state₂⟩, hfin, hrun⟩ := bind_eq_ok.mp hrun
  cases hrun
  have hwell₁ := (runEvents_ensures hwell events).of_ok hevs
  have hpass := (passes_invariant hcodec hwell.prepared.ne_nil key).runEvents hwell rfl hstart
    hsteps hkeeps hevs
  rw [nil_append, nil_append] at hpass
  obtain ⟨written, haccs, hholds⟩ := hpass hunto
  have hwhole : written.flatten ++
      ((state₁.streams.find? key).map fun row => row.2.finish).getD [] =
        textOf codec key (events.map Prod.fst) := by
    cases hfind : state₁.streams.find? key with
    | none =>
      rw [hfind] at hholds
      exact (append_nil _).trans hholds
    | some row =>
      rw [hfind] at hholds
      exact hholds.1
  obtain ⟨written', haccs', hflat⟩ := haccs.finishEvents (exactReading hcodec key)
    hwell₁.wellFormed hwell₁.values
    (fun row hfind piece hpiece => hunto.plain (by
      rw [hfind] at hwhole
      rw [← hwhole]
      exact haccs.anchored_infix hfind hpiece _)) hfin
  obtain ⟨pieces, hpays, hpieces⟩ := haccs'.payloadsOf hempty
    fun format piece output _ hreads => by rw [hreads.1]; rfl
  exact ⟨pieces, hpays, hpieces.trans (hflat.trans hwhole)⟩

/-- The filter emits the events it is given, once each and in order, ends empty and never
    loses count; and a stream without relief, joined lines, and values in its strings, its
    text and the encodings of its parts keeps its bytes. -/
theorem run_keeps_events (hcodec : codec.Lawful) (values : List Bytes)
    (events : List (RunnerEvent × Allocation)) : ∃ state, new values = some state ∧
      (∀ fault, state.run codec events = .error fault → ¬ fault.IsInternal) ∧
      ∀ emitted last, state.run codec events = .ok (emitted, last) →
        emitted.map RunnerEvent.header = events.map (fun input => input.1.header) ∧
        last.streams.rows = [] ∧ last.pending = [] ∧ last.pendingBytes = 0 ∧
        ∃ steps, state.runSteps codec events = .ok steps ∧
          ∀ key, (∀ step ∈ steps, keepsText codec key step = true) →
            Untouched codec state.values key (events.map Prod.fst) →
            ∃ pieces : List Bytes, payloadsOf codec true key (events.map Prod.fst) emitted = pieces.map some ∧
              pieces.flatten = textOf codec key (events.map Prod.fst) := by
  obtain ⟨state, hnew, hwell, hpend, hstrs, -⟩ := new_spec values
  refine ⟨state, hnew, fun fault herror => (run_ensures hwell events).of_error herror, ?_⟩
  intro emitted last hrun
  obtain ⟨haccepts, hstrs', hpend'⟩ := (run_ensures hwell events).of_ok hrun
  have hheaders := haccepts.headers
  have hnone : state.headers = [] ∧ last.headers = [] := by
    unfold headers
    rw [hpend, hpend']
    exact ⟨rfl, rfl⟩
  rw [hnone.1, hnone.2, append_nil, nil_append, map_map] at hheaders
  have hcnt : last.pendingBytes = 0 := by
    rw [haccepts.wellFormed.counted, hpend']
    rfl
  obtain ⟨result, hevs, -⟩ := bind_eq_ok.mp hrun
  obtain ⟨steps, hsteps⟩ := runSteps_isOk hevs
  refine ⟨hheaders, hstrs', hpend', hcnt, steps, hsteps, fun key hkeeps hunto => ?_⟩
  exact (Passes.start hstrs hpend).payloads hcodec hwell hrun hsteps hkeeps hunto

/-! ## Encodings -/

/-- A byte that is no base64 symbol keeps a value out of every encoding. -/
theorem avoids_encoding (h : ∀ value ∈ values, ∃ byte ∈ value,
      byte ≠ Base64.pad ∧ Base64.digit byte = none) (text : Bytes) :
    Avoids values (stringBytes (encodeBytes text)) := by
  intro value hvalue hpart
  obtain ⟨byte, hbyte, hpad, hdigit⟩ := h value hvalue
  rw [stringBytes_encodeBytes] at hpart
  rcases Base64.decode_symbols (Base64.decode_encode text) byte (hpart.subset hbyte) with
    heq | hsome
  · exact hpad heq
  · rw [hdigit] at hsome
    cases hsome

namespace Console

/-- Under `a.b`, the `a` that ends the first chunk comes back with the second. -/
theorem held_back_byte_returns : ∃ state, new [[97, 46, 98]] = some state ∧ ∀ emitted last,
      state.run standard (chunks [[120, 97], [46, 99]]) = .ok (emitted, last) →
        ∃ pieces : List Bytes, payloadsOf standard true stdout ((chunks [[120, 97], [46, 99]]).map Prod.fst)
            emitted = pieces.map some ∧ pieces.flatten = [120, 97, 46, 99] := by
  obtain ⟨state, hnew, -, hrun⟩ := run_keeps_events standard_lawful [[97, 46, 98]]
    (chunks [[120, 97], [46, 99]])
  refine ⟨state, hnew, fun emitted last hok => ?_⟩
  obtain ⟨-, -, -, -, steps, hsteps, hpass⟩ := hrun emitted last hok
  have hkept : ((new [[97, 46, 98]]).bind fun state =>
      (state.runSteps standard (chunks [[120, 97], [46, 99]])).toOption.map fun steps =>
        steps.all (keepsText standard stdout)) = some true := by
    decide +kernel
  have hvals : (new [[97, 46, 98]]).map RunnerRedactions.values = some [[97, 46, 98]] := by
    decide +kernel
  rw [hnew] at hvals
  rw [hnew, Option.bind_some, hsteps] at hkept
  refine hpass stdout (all_eq_true.mp (Option.some.inj hkept)) ?_
  rw [show state.values = [[97, 46, 98]] from Option.some.inj hvals]
  refine ⟨by unfold CleanStrings; decide +kernel, by decide +kernel, fun piece _ => ?_⟩
  exact avoids_encoding (by decide) piece

/-- With `YWM=` protected, the bytes `ac` leave as a text that is masked: it is
    their encoding, and neither the strings nor the text held the value. -/
theorem encoded_piece_masked :
    emittedFor true [[97, 98], [89, 87, 77, 61]] [[120, 97], [99]] = some [some [120], none] ∧
      ((new [[97, 98], [89, 87, 77, 61]]).bind fun state =>
        (state.runSteps standard (chunks [[120, 97], [99]])).toOption.map fun steps =>
          steps.all (keepsText standard stdout)) = some true ∧
      (∀ event ∈ (chunks [[120, 97], [99]]).map Prod.fst,
        CleanStrings [[97, 98], [89, 87, 77, 61]] event) ∧ Avoids [[97, 98], [89, 87, 77, 61]]
        (textOf standard stdout ((chunks [[120, 97], [99]]).map Prod.fst)) :=
  ⟨by decide +kernel, by decide +kernel, by unfold CleanStrings; decide +kernel, by decide +kernel⟩

end Console

end RunnerRedactions

end OctaCity.Runner
