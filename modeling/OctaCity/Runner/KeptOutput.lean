/-
  OctaCity.Runner.KeptOutput

  Outputs that redaction keeps.  An event whose labels hold no protected value,
  and whose payload holds none in its bytes and none in its base64 text, leaves
  redaction as an output of the same stream with the same bytes.
-/
import OctaCity.Runner.StreamEvents

namespace OctaCity.Runner

open Fields Lib Option

namespace RunnerRedactions

variable {codec : Codec} {values : List Bytes} {fields fields' : Fields} {name : String}

/-! ## Events that keep their payload -/

/-- The strings that say which stream and format an event has hold no value. -/
structure CleanOutput (values : List Bytes) (event : RunnerEvent) : Prop where
  labels : ∀ name ∈ ["type", "command_id", "stream"], ∀ text,
    str event.data name = some text → Avoids values (stringBytes text)
  format : ∀ payload text, object event.data "payload" = some payload →
    str payload "format" = some text → Avoids values (stringBytes text)

variable {event : RunnerEvent} {format : OutputFormat} {bytes : Bytes}

section

variable (h : redactMap codec values fields = .ok fields') (hname : name ≠ "data")

include h hname

theorem str_redactMap_of_clean
    (hclean : ∀ text, str fields name = some text → Avoids values (stringBytes text)) :
    str fields' name = str fields name := by
  ext text'
  rw [str_redactMap h hname]
  constructor
  · rintro ⟨text, htext, hredact⟩
    rw [redactString_of_avoids (hclean text htext)] at hredact
    cases hredact
    exact htext
  · intro htext
    exact ⟨text', htext, redactString_of_avoids (hclean text' htext)⟩

/-- An object is still there after redaction, redacted itself. -/
theorem object_redactMap_exists {inner : Fields} (hinner : object fields name = some inner) :
    ∃ inner', redactMap codec values inner = .ok inner' ∧ object fields' name = some inner' := by
  obtain ⟨value, hget, hobj⟩ := bind_eq_some_iff.mp hinner
  cases value <;> cases hobj
  rcases get_redactFields h name with ⟨hnone, -⟩ | ⟨value, value', hvalue, hredact, hvalue'⟩
  · rw [hnone] at hget
    cases hget
  · rw [hget] at hvalue
    cases hvalue
    rw [redactField_of_ne hname, redactValue] at hredact
    obtain ⟨inner', hmap, hok⟩ := bind_eq_ok.mp hredact
    cases hok
    refine ⟨inner', hmap, ?_⟩
    unfold object
    rw [hvalue']
    rfl

end

section

variable {key : StreamKey} (hcodec : codec.Lawful) (hclean : CleanOutput values event)
  (hpay : outputPayload codec event = some (key, format, bytes))

include hcodec hclean hpay

/-- Redaction keeps the payload of a clean event whose text holds no value. -/
theorem outputPayload_kept {data : Fields} (havoid : Avoids values bytes)
    (hencoded : format ≠ .line → Avoids values (stringBytes (codec.encode bytes)))
    (hredact : redactMap codec values event.data = .ok data) :
    outputPayload codec { event with data := data } = some (key, format, bytes) ∧
      CleanOutput values { event with data := data } := by
  obtain ⟨hkind, payload, text, hobj, hname, htext, hbytes, hkey⟩ :=
    outputPayload_eq_some.mp hpay
  obtain ⟨payload', hmap, hobj'⟩ := object_redactMap_exists hredact (by decide) hobj
  have hlabel : ∀ name ∈ ["type", "command_id", "stream"],
      str data name = str event.data name := fun name hmem =>
    str_redactMap_of_clean hredact (by rintro rfl; exact absurd hmem (by decide))
      (hclean.labels name hmem)
  have hfmt : str payload' "format" = str payload "format" :=
    str_redactMap_of_clean hmap (by decide)
      fun text htext => hclean.format payload text hobj htext
  -- The redacted data still decodes to the same bytes.
  obtain ⟨text', htext', hbytes'⟩ : ∃ text', str payload' "data" = some text' ∧
      payloadBytes codec format text' = some bytes := by
    have hdata := redactedData_payload hname htext hbytes havoid
    cases format with
    | line =>
      rw [if_pos rfl] at hdata
      have hsame : stringBytes text = bytes := Option.some.inj hbytes
      refine ⟨text, (str_data_redactMap hmap htext text).mpr ?_, hbytes⟩
      rw [hdata, getD_none]
      exact redactString_of_avoids (hsame ▸ havoid)
    | bytes =>
      rw [if_neg (by decide)] at hdata
      refine ⟨codec.encode bytes, (str_data_redactMap hmap htext _).mpr ?_,
        hcodec.decode_encode bytes⟩
      rw [hdata, getD_some]
      exact redactString_of_avoids (hencoded (by decide))
    | rawBytes =>
      rw [if_neg (by decide)] at hdata
      refine ⟨codec.encode bytes, (str_data_redactMap hmap htext _).mpr ?_,
        hcodec.decode_encode bytes⟩
      rw [hdata, getD_some]
      exact redactString_of_avoids (hencoded (by decide))
  have hkey' : streamKey { event with data := data } = some key := by
    unfold streamKey at hkey ⊢
    rw [hlabel "command_id" (by decide), hlabel "stream" (by decide),
      u64_redactMap hredact (by decide), u64_redactMap hredact (by decide)]
    exact hkey
  refine ⟨outputPayload_eq_some.mpr ⟨(hlabel "type" (by decide)).trans hkind, payload', text',
    hobj', by rwa [hfmt], htext', hbytes', hkey'⟩, ?_, ?_⟩
  · intro name hmem text htext
    exact hclean.labels name hmem text ((hlabel name hmem).symm.trans htext)
  · intro inner text hinner htext
    rw [hobj'] at hinner
    cases hinner
    exact hclean.format payload text hobj (hfmt.symm.trans htext)

/-- Writing a payload keeps the labels and the format. -/
theorem cleanOutput_setOutputData {event' : RunnerEvent} {piece : Bytes}
    (hset : setOutputData codec event piece format = .ok event') : CleanOutput values event' where
  labels name hmem text htext := by
    have hname : name ≠ "payload" := by
      rintro rfl
      exact absurd hmem (by decide)
    exact hclean.labels name hmem text ((setOutputData_str hset hname).symm.trans htext)
  format payload' text hobj htext := by
    obtain ⟨-, payload, _, hpayload₀, hformat₀, -⟩ := outputPayload_eq_some.mp hpay
    obtain ⟨-, payload₁, _, hpayload₁, hformat₁, -⟩ :=
      outputPayload_eq_some.mp (outputPayload_setOutputData hcodec hpay hset)
    rw [hobj] at hpayload₁
    cases hpayload₁
    rw [htext] at hformat₁
    obtain ⟨name, hname, hof⟩ := bind_eq_some_iff.mp hformat₀
    have hsame : text = name := (ofName_eq_some hformat₁).trans (ofName_eq_some hof).symm
    rw [hsame]
    exact hclean.format payload name hpayload₀ hname

end

/-- The event is an output of the stream with exactly this piece. -/
def ReadsExactly (codec : Codec) (values : List Bytes) (key : StreamKey) (format : OutputFormat)
    (piece : Bytes) (event : RunnerEvent) : Prop :=
  outputPayload codec event = some (key, format, piece) ∧ CleanOutput values event

/-- Neither a text nor its encoding holds a value. -/
def Plain (codec : Codec) (values : List Bytes) (text : Bytes) : Prop :=
  Avoids values text ∧ Avoids values (stringBytes (codec.encode text))

section

variable {key : StreamKey} {input output : RunnerEvent} {piece : Bytes} {data : Fields}
  (hcodec : codec.Lawful)

include hcodec

/-- A clean chunk reads as the piece that is written into it. -/
theorem readsExactly_chunk (hclean : CleanOutput values input)
    (hpay : outputPayload codec input = some (key, format, bytes))
    (hset : setOutputData codec input piece format = .ok event) (hpiece : Plain codec values piece)
    (hredact : redactMap codec values event.data = .ok data) :
    ReadsExactly codec values key format piece { event with data := data } :=
  outputPayload_kept hcodec (cleanOutput_setOutputData hcodec hclean hpay hset)
    (outputPayload_setOutputData hcodec hpay hset) hpiece.1 (fun _ => hpiece.2) hredact

/-- A tail is appended to the piece an output reads as. -/
theorem readsExactly_tail {suffix : Bytes} {key' : StreamKey} {format' : OutputFormat}
    (hreads : ReadsExactly codec values key format piece output)
    (hpay : outputPayload codec output = some (key', format', bytes))
    (hset : setOutputData codec output (bytes ++ suffix) format' = .ok event)
    (hpiece : Plain codec values (piece ++ suffix))
    (hredact : redactMap codec values event.data = .ok data) :
    ReadsExactly codec values key format (piece ++ suffix) { event with data := data } := by
  obtain ⟨hread, hclean⟩ := hreads
  rw [hread] at hpay
  cases hpay
  exact readsExactly_chunk hcodec hclean hread hset hpiece hredact

end

end RunnerRedactions

end OctaCity.Runner
