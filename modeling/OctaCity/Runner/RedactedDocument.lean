/-
  OctaCity.Runner.RedactedDocument

  What redaction does to one document.  A text without values is unchanged; a
  changed text holds a marker byte, which no format name and no base64 text has.
-/
import OctaCity.Lib.Base64
import OctaCity.Runner.RedactionQueue

namespace OctaCity.Runner

open Fields Lib List Option RunnerRedactions

/-! ## Bytes and strings -/

/-- A byte only a marker puts there: `*` or `[`. -/
def HasMarker (bytes : Bytes) : Prop := starByte ∈ bytes ∨ (91 : UInt8) ∈ bytes

theorem hasMarker_marker {removedBytes : Nat} (h : 0 < removedBytes) :
    HasMarker (marker removedBytes) := by
  unfold marker
  split
  · exact Or.inl (mem_replicate.mpr ⟨h.ne', rfl⟩)
  · exact Or.inr mem_cons_self

variable {bytes : Bytes} {values : List Bytes} {text : String}

theorem HasMarker.append_right (h : HasMarker bytes) (before after : Bytes) :
    HasMarker (before ++ bytes ++ after) :=
  h.imp (fun h => mem_append_left _ (mem_append_right _ h))
    fun h => mem_append_left _ (mem_append_right _ h)

theorem findNeedle_eq_none {needle : Bytes} (h : ¬ needle <:+: bytes) :
    findNeedle needle bytes = none := by
  induction bytes with
  | nil =>
    have hne : needle ≠ [] := by
      rintro rfl
      exact h (infix_rfl)
    rw [findNeedle, if_neg (by simpa using hne)]
  | cons byte rest ih =>
    have hpre : ¬ needle.isPrefixOf (byte :: rest) = true := by
      intro hp
      exact h ( isPrefixOf_iff_prefix.mp hp).isInfix
    rw [findNeedle, if_neg hpre, ih fun hpart => h (hpart.trans (suffix_cons _ _).isInfix)]
    rfl

/-- A pass of one value changes nothing or leaves a marker. -/
theorem replaceNeedle_eq_or (needle : Bytes) (hne : needle ≠ []) (fuel : Nat) (bytes : Bytes) :
    replaceNeedle needle fuel bytes = bytes ∨ HasMarker (replaceNeedle needle fuel bytes) := by
  cases fuel with
  | zero => exact Or.inl rfl
  | succ fuel =>
    rw [replaceNeedle]
    cases findNeedle needle bytes with
    | none => exact Or.inl rfl
    | some position =>
      exact Or.inr ((hasMarker_marker (length_pos_of_ne_nil hne)).append_right _ _)

theorem replaceNeedle_of_not_infix {needle : Bytes} (h : ¬ needle <:+: bytes) (fuel : Nat) :
    replaceNeedle needle fuel bytes = bytes := by
  cases fuel with
  | zero => rfl
  | succ fuel => rw [replaceNeedle, findNeedle_eq_none h]

theorem redactBytes_of_avoids (h : Avoids values bytes) : redactBytes bytes values = bytes := by
  unfold redactBytes
  induction values with
  | nil => rfl
  | cons needle rest ih =>
    rw [foldl_cons, replaceNeedle_of_not_infix (h needle mem_cons_self)]
    exact ih fun value hvalue => h value (mem_cons_of_mem _ hvalue)

theorem redactBytes_eq_or (hne : ∀ value ∈ values, value ≠ [])
    (bytes : Bytes) : redactBytes bytes values = bytes ∨ HasMarker (redactBytes bytes values) := by
  unfold redactBytes
  -- The last pass that changed the text left its marker.
  have hall : ∀ text : Bytes, text = bytes ∨ HasMarker text →
      (values.foldl (fun bytes needle => replaceNeedle needle bytes.length bytes) text = bytes ∨
        HasMarker (values.foldl
          (fun bytes needle => replaceNeedle needle bytes.length bytes) text)) := by
    induction values with
    | nil => exact fun text htext => htext
    | cons needle rest ih =>
      intro text htext
      refine ih (fun value hvalue => hne value (mem_cons_of_mem _ hvalue)) _ ?_
      rcases replaceNeedle_eq_or needle (hne needle mem_cons_self) text.length text with
        hsame | hmarker
      · exact (congrArg (fun t => t = bytes ∨ HasMarker t) hsame).mpr htext
      · exact Or.inr hmarker
  exact hall bytes (Or.inl rfl)

theorem stringFromUtf8_stringBytes (text : String) : stringFromUtf8 (stringBytes text) = some text := by
  unfold stringFromUtf8 stringBytes String.fromUTF8?
  have hbytes : (⟨text.toUTF8.data.toList.toArray⟩ : ByteArray) = text.toUTF8 := by
    rw [Array.toArray_toList]
  rw [hbytes]
  exact dif_pos text.isValidUTF8

theorem stringBytes_of_fromUtf8
    (h : stringFromUtf8 bytes = some text) : stringBytes text = bytes := by
  unfold stringFromUtf8 String.fromUTF8? at h
  split at h
  · cases h
    rfl
  · cases h

theorem redactString_of_avoids
    (h : Avoids values (stringBytes text)) : redactString values text = some text := by
  unfold redactString
  rw [redactBytes_of_avoids h, stringFromUtf8_stringBytes]

/-- A string is unchanged or holds a marker. -/
theorem redactString_eq_or (hne : ∀ value ∈ values, value ≠ [])
    {text' : String} (h : redactString values text = some text') :
    text' = text ∨ HasMarker (stringBytes text') := by
  have hbytes := stringBytes_of_fromUtf8 h
  rcases redactBytes_eq_or hne (stringBytes text) with hsame | hmarker
  · rw [hsame] at hbytes
    have hback := stringFromUtf8_stringBytes text'
    rw [hbytes, stringFromUtf8_stringBytes] at hback
    exact Or.inl (Option.some.inj hback).symm
  · rw [hbytes]
    exact Or.inr hmarker

/-! ## Fields -/

section Fields

variable {codec : Codec} {values : List Bytes}

def redactField (codec : Codec) (values : List Bytes) (data : Option String) (name : String)
    (value : Json) : Except RedactionFault Json :=
  match if name = "data" then data else none with
  | some encoded => do
    let text ← orFault .utf8 (redactString values encoded)
    .ok (.string text)
  | none => redactValue codec values value

variable {data : Option String} {name : String} {format : OutputFormat} {event : RunnerEvent}

theorem redactFields_cons {value : Json} {fields fields' : Fields}
    (h : redactFields codec values data ((name, value) :: fields) = .ok fields') :
    ∃ value' rest, redactField codec values data name value = .ok value' ∧
      redactFields codec values data fields = .ok rest ∧ fields' = (name, value') :: rest := by
  rw [redactFields] at h
  unfold redactField
  cases hdata : if name = "data" then data else none with
  | some encoded =>
    rw [hdata] at h
    obtain ⟨text, htext, h⟩ := bind_eq_ok.mp h
    obtain ⟨rest, hrest, h⟩ := bind_eq_ok.mp h
    cases h
    exact ⟨_, rest, bind_eq_ok.mpr ⟨text, htext, rfl⟩, hrest, rfl⟩
  | none =>
    rw [hdata] at h
    obtain ⟨value', hvalue, h⟩ := bind_eq_ok.mp h
    obtain ⟨rest, hrest, h⟩ := bind_eq_ok.mp h
    cases h
    exact ⟨value', rest, hvalue, hrest, rfl⟩

theorem Fields.get_cons (name name' : String) (value : Json) (fields : Fields) :
    get ((name, value) :: fields) name' =
      if name = name' then some value else get fields name' := by
  unfold get
  rw [List.find?_cons]
  by_cases h : name = name'
  · simp [h]
  · simp [h]

/-- Redaction keeps the names and redacts each value. -/
theorem get_redactFields {fields fields' : Fields}
    (h : redactFields codec values data fields = .ok fields') (name : String) :
    (get fields name = none ∧ get fields' name = none) ∨
      ∃ value value', get fields name = some value ∧
        redactField codec values data name value = .ok value' ∧ get fields' name = some value' := by
  induction fields generalizing fields' with
  | nil =>
    rw [redactFields] at h
    cases h
    exact Or.inl ⟨rfl, rfl⟩
  | cons field fields ih =>
    obtain ⟨name', value⟩ := field
    obtain ⟨value', rest, hvalue, hrest, rfl⟩ := redactFields_cons h
    rw [get_cons, get_cons]
    by_cases hname : name' = name
    · subst hname
      rw [if_pos rfl, if_pos rfl]
      exact Or.inr ⟨value, value', rfl, hvalue, rfl⟩
    · rw [if_neg hname, if_neg hname]
      exact ih hrest

theorem redactField_of_ne (hname : name ≠ "data")
    (value : Json) : redactField codec values data name value = redactValue codec values value := by
  unfold redactField
  rw [if_neg hname]

/-- Numbers are kept, strings stay strings and objects stay objects. -/
theorem redactValue_kind {value value' : Json} (h : redactValue codec values value = .ok value') :
    value'.asU64 = value.asU64 ∧ (∀ text', value'.asStr = some text' ↔
        ∃ text, value.asStr = some text ∧ redactString values text = some text') ∧
      (∀ fields', value'.asObject = some fields' ↔
        ∃ fields, value.asObject = some fields ∧ redactMap codec values fields = .ok fields') := by
  cases value with
  | string text =>
    rw [redactValue] at h
    obtain ⟨text', htext, h⟩ := bind_eq_ok.mp h
    cases h
    rw [orFault_eq_ok] at htext
    simp [Json.asU64, Json.asStr, Json.asObject, htext]
  | array items =>
    rw [redactValue] at h
    obtain ⟨items', hitems, h⟩ := bind_eq_ok.mp h
    cases h
    simp [Json.asU64, Json.asStr, Json.asObject]
  | object fields =>
    rw [redactValue] at h
    obtain ⟨fields', hflds, h⟩ := bind_eq_ok.mp h
    cases h
    have hmap : redactMap codec values fields = .ok fields' := hflds
    simp [Json.asU64, Json.asStr, Json.asObject, hmap]
  | null =>
    rw [redactValue] at h
    cases h
    simp [Json.asU64, Json.asStr, Json.asObject]
  | bool value =>
    rw [redactValue] at h
    cases h
    simp [Json.asU64, Json.asStr, Json.asObject]
  | number value =>
    rw [redactValue] at h
    cases h
    simp [Json.asU64, Json.asStr, Json.asObject]

variable {fields fields' : Fields}

section

variable (h : redactMap codec values fields = .ok fields')

include h

theorem str_redactMap (hname : name ≠ "data") (text' : String) :
    str fields' name = some text' ↔
      ∃ text, str fields name = some text ∧ redactString values text = some text' := by
  unfold str
  rcases get_redactFields h name with ⟨hnone, hnone'⟩ | ⟨value, value', hget, hvalue, hget'⟩
  · rw [hnone, hnone']
    simp
  · rw [hget, hget', bind_some, bind_some]
    rw [redactField_of_ne hname] at hvalue
    exact (redactValue_kind hvalue).2.1 text'

theorem u64_redactMap (hname : name ≠ "data") :
    u64 fields' name = u64 fields name := by
  unfold u64
  rcases get_redactFields h name with ⟨hnone, hnone'⟩ | ⟨value, value', hget, hvalue, hget'⟩
  · rw [hnone, hnone']
  · rw [hget, hget', bind_some, bind_some]
    rw [redactField_of_ne hname] at hvalue
    exact (redactValue_kind hvalue).1

/-- The `data` string of a document that holds bytes is redacted in its encoding. -/
theorem str_data_redactMap {data : String} (hdata : str fields "data" = some data)
    (text' : String) : str fields' "data" = some text' ↔
      redactString values ((redactedData codec values fields).getD data) = some text' := by
  unfold str at hdata ⊢
  rcases get_redactFields h "data" with ⟨hnone, -⟩ | ⟨value, value', hget, hvalue, hget'⟩
  · rw [hnone] at hdata
    cases hdata
  · rw [hget, bind_some] at hdata
    rw [hget', bind_some]
    unfold redactField at hvalue
    rw [if_pos rfl] at hvalue
    cases hredd : redactedData codec values fields with
    | some encoded =>
      rw [hredd] at hvalue
      obtain ⟨text, htext, hvalue⟩ := bind_eq_ok.mp hvalue
      cases hvalue
      rw [orFault_eq_ok] at htext
      rw [getD_some, htext]
      rfl
    | none =>
      rw [hredd] at hvalue
      rw [(redactValue_kind hvalue).2.1 text', getD_none]
      simp [hdata]

end

/-! ## Output events -/

/-- Base64: what is encoded decodes to itself, and a text with a character
    outside the alphabet does not decode. -/
structure Codec.Lawful (codec : Codec) : Prop where
  decode_encode : ∀ bytes, codec.decode (codec.encode bytes) = some bytes
  decode_marker : ∀ text, HasMarker (stringBytes text) → codec.decode text = none

theorem Fields.get_insert (fields : Fields) (name name' : String) (value : Json) :
    get (insert fields name value) name' =
      if name = name' then some value else get fields name' := by
  induction fields with
  | nil => rw [insert, get_cons]
  | cons field fields ih =>
    obtain ⟨first, firstValue⟩ := field
    rw [insert]
    by_cases hfirst : first = name
    · subst hfirst
      rw [if_pos rfl, get_cons, get_cons]
      by_cases hname : first = name'
      · rw [if_pos hname, if_pos hname]
      · rw [if_neg hname, if_neg hname, if_neg hname]
    · rw [if_neg hfirst, get_cons, ih, get_cons]
      by_cases hname : first = name'
      · subst hname
        rw [if_pos rfl, if_neg (Ne.symm hfirst), if_pos rfl]
      · rw [if_neg hname, if_neg hname]

theorem ofName_name (format : OutputFormat) : OutputFormat.ofName format.name = some format := by
  cases format <;> rfl

theorem ofName_eq_some (h : OutputFormat.ofName name = some format) : name = format.name := by
  unfold OutputFormat.ofName at h
  split at h
  · rename_i heq
    cases h
    exact heq
  · split at h
    · rename_i heq
      cases h
      exact heq
    · split at h
      · rename_i heq
        cases h
        exact heq
      · cases h

/-- Writing a payload changes the bytes and the format, not the stream. -/
theorem outputPayload_setOutputData (hcodec : codec.Lawful) {event' : RunnerEvent} {key : StreamKey}
    {written : Bytes} (hpay : outputPayload codec event = some (key, format, bytes))
    (h : setOutputData codec event written format = .ok event') :
    outputPayload codec event' = some (key, format, written) := by
  obtain ⟨hkind, payload, data, hobj, -, -, -, hkey⟩ := outputPayload_eq_some.mp hpay
  unfold setOutputData at h
  obtain ⟨payload', hobj', h⟩ := bind_eq_ok.mp h
  obtain ⟨text, htext, h⟩ := bind_eq_ok.mp h
  cases h
  have hother : ∀ name value, name ≠ "payload" →
      get (insert event.data "payload" value) name = get event.data name := by
    intro name value hname
    rw [get_insert, if_neg (Ne.symm hname)]
  refine outputPayload_eq_some.mpr ⟨?_,
    insert (insert payload' "format" (.string format.name)) "data" (.string text),
    text, ?_, ?_, ?_, ?_, ?_⟩
  · unfold str at hkind ⊢
    rw [hother _ _ (by decide)]
    exact hkind
  · unfold object
    rw [get_insert, if_pos rfl]
    rfl
  · unfold str
    rw [get_insert, if_neg (by decide), get_insert, if_pos rfl]
    exact ofName_name format
  · unfold str
    rw [get_insert, if_pos rfl]
    rfl
  · cases format with
    | line => exact congrArg some (stringBytes_of_fromUtf8 (orFault_eq_ok.mp htext))
    | bytes =>
      cases htext
      exact hcodec.decode_encode written
    | rawBytes =>
      cases htext
      exact hcodec.decode_encode written
  · unfold streamKey u64 str at hkey ⊢
    rw [hother _ _ (by decide), hother _ _ (by decide), hother _ _ (by decide),
      hother _ _ (by decide)]
    exact hkey

/-- A payload of bytes is encoded again before its text is redacted. -/
theorem redactedData_payload {payload : Fields} {data : String}
    (hfmt : (str payload "format").bind OutputFormat.ofName = some format)
    (hdata : str payload "data" = some data)
    (hbytes : payloadBytes codec format data = some bytes) (havoid : Avoids values bytes) :
    redactedData codec values payload =
      if format = .line then none else some (codec.encode bytes) := by
  obtain ⟨name, hname, hof⟩ := bind_eq_some_iff.mp hfmt
  have hname' := ofName_eq_some hof
  unfold redactedData
  rw [hname]
  show (if name = "bytes" ∨ name = "raw_bytes" then _ else none) = _
  rw [hdata, hname']
  cases format with
  | line => rfl
  | bytes =>
    have hdecode : codec.decode data = some bytes := hbytes
    show (codec.decode data).bind _ = _
    rw [hdecode, bind_some, redactBytes_of_avoids havoid]
    rfl
  | rawBytes =>
    have hdecode : codec.decode data = some bytes := hbytes
    show (codec.decode data).bind _ = _
    rw [hdecode, bind_some, redactBytes_of_avoids havoid]
    rfl

theorem hasMarker_name (format : OutputFormat) : ¬ HasMarker (stringBytes format.name) := by
  unfold HasMarker
  cases format <;> decide

theorem boundaryOf_eq_some {boundary : UInt64 × Option UInt64} : boundaryOf event = some boundary ↔
      ∃ runId kind, u64 event.data "run_id" = some runId ∧
        str event.data "type" = some kind ∧
        (kind = "step_finished" ∧
            boundary = (runId, (object event.data "step").bind fun step =>
              u64 step "id") ∨
          kind = "run_finished" ∧ boundary = (runId, none)) := by
  unfold boundaryOf
  constructor
  · intro h
    obtain ⟨runId, hrun, h⟩ := bind_eq_some_iff.mp h
    obtain ⟨kind, hkind, h⟩ := bind_eq_some_iff.mp h
    refine ⟨runId, kind, hrun, hkind, ?_⟩
    by_cases hstep : kind = "step_finished"
    · rw [if_pos hstep] at h
      exact Or.inl ⟨hstep, (Option.some.inj h).symm⟩
    · rw [if_neg hstep] at h
      by_cases hfin : kind = "run_finished"
      · rw [if_pos hfin] at h
        exact Or.inr ⟨hfin, (Option.some.inj h).symm⟩
      · rw [if_neg hfin] at h
        cases h
  · rintro ⟨runId, kind, hrun, hkind, h⟩
    refine bind_eq_some_iff.mpr ⟨runId, hrun, bind_eq_some_iff.mpr ⟨kind, hkind, ?_⟩⟩
    rcases h with ⟨rfl, rfl⟩ | ⟨rfl, rfl⟩
    · rfl
    · rfl

/-- Redaction makes no boundary of an event that is none. -/
theorem boundaryOf_redacted (hne : ∀ value ∈ values, value ≠ [])
    {data : Fields} {boundary : UInt64 × Option UInt64}
    (hredact : redactMap codec values event.data = .ok data)
    (h : boundaryOf { event with data := data } = some boundary) :
    boundaryOf event = some boundary := by
  obtain ⟨runId, kind, hrun, hkind, hcases⟩ := boundaryOf_eq_some.mp h
  obtain ⟨kind₀, hkind₀, hredd⟩ := (str_redactMap hredact (by decide) kind).mp hkind
  have hsame : kind = kind₀ := by
    rcases redactString_eq_or hne hredd with hsame | hmarker
    · exact hsame
    · exfalso
      unfold HasMarker at hmarker
      rcases hcases with ⟨rfl, -⟩ | ⟨rfl, -⟩
      · revert hmarker
        decide
      · revert hmarker
        decide
  have hstep : ((object data "step").bind fun step => u64 step "id") =
      (object event.data "step").bind fun step => u64 step "id" := by
    unfold object
    rcases get_redactFields hredact "step" with ⟨hnone, hnone'⟩ | ⟨value, value', hget, hvalue, hget'⟩
    · rw [hnone, hnone']
    · rw [hget, hget', bind_some, bind_some]
      rw [redactField_of_ne (by decide)] at hvalue
      have hobj := (redactValue_kind hvalue).2.2
      cases hinner : value.asObject with
      | none =>
        have hnone : value'.asObject = none := by
          cases hinner' : value'.asObject with
          | none => rfl
          | some inner' =>
            obtain ⟨inner, hsome, -⟩ := (hobj inner').mp hinner'
            rw [hinner] at hsome
            cases hsome
        rw [hnone]
      | some inner =>
        cases hinner' : value'.asObject with
        | none =>
          -- An object is redacted to an object.
          cases value with
          | object fields =>
            rw [redactValue] at hvalue
            obtain ⟨fields', -, hvalue⟩ := bind_eq_ok.mp hvalue
            cases hvalue
            cases hinner'
          | _ => cases hinner
        | some inner' =>
          obtain ⟨inner₀, hsome, hmap⟩ := (hobj inner').mp hinner'
          rw [hinner] at hsome
          cases hsome
          rw [bind_some, bind_some, u64_redactMap hmap (by decide)]
  rw [u64_redactMap hredact (by decide)] at hrun
  refine boundaryOf_eq_some.mpr ⟨runId, kind, hrun, by rw [hkind₀, hsame], ?_⟩
  rcases hcases with ⟨hkindEq, hbound⟩ | hcase
  · rw [hstep] at hbound
    exact Or.inl ⟨hkindEq, hbound⟩
  · exact Or.inr hcase

/-- An output event ends no stream. -/
theorem boundaryOf_output
    (h : str event.data "type" = some "output") : boundaryOf event = none := by
  cases hb : boundaryOf event with
  | none => rfl
  | some boundary =>
    obtain ⟨_, kind, -, hkind, hcases⟩ := boundaryOf_eq_some.mp hb
    rw [h] at hkind
    cases hkind
    rcases hcases with ⟨habsurd, -⟩ | ⟨habsurd, -⟩
    · exact absurd habsurd (by decide)
    · exact absurd habsurd (by decide)

end Fields

/-! # Wire format

The encodings the filter is used with: standard base64 over the bytes of a
JSON string, and the length of an event as `serde_json` writes it.
-/

/-- `STANDARD.encode` -/
def encodeBytes (bytes : Bytes) : String :=
  String.ofList ((Base64.encode bytes).map fun byte => Char.ofNat byte.toNat)

/-- `STANDARD.decode` -/
def decodeBytes (text : String) : Option Bytes := Base64.decode (stringBytes text)

/-- A character inside a JSON string. -/
def charBytes (c : Char) : Nat :=
  if c = '"' ∨ c = '\\' ∨ c.toNat ∈ [8, 9, 10, 12, 13] then 2
  else if c.toNat < 32 then 6
  else c.utf8Size

def quotedBytes (text : String) : Nat := 2 + (text.toList.map charBytes).sum

def Number.wireBytes : Number → Nat
  | .posInt value => (toString value.toNat).length
  | .negInt value => (toString value.toInt).length
  -- The longest shortest form of a double.
  | .float _ => 24

mutual

def Json.wireBytes : Json → Nat
  | .null => 4
  | .bool value => if value then 4 else 5
  | .number value => value.wireBytes
  | .string text => quotedBytes text
  | .array items => 2 + itemsWireBytes items
  | .object fields => 2 + fieldsWireBytes fields

def itemsWireBytes : List Json → Nat
  | [] => 0
  | item :: items => item.wireBytes + (if items.isEmpty then 0 else 1) + itemsWireBytes items

def fieldsWireBytes : List (String × Json) → Nat
  | [] => 0
  | (name, value) :: fields =>
    quotedBytes name + 1 + value.wireBytes + (if fields.isEmpty then 0 else 1) +
      fieldsWireBytes fields

end

def RunnerEvent.wireBytes (event : RunnerEvent) : Nat :=
  (Json.object [
    ("schema_version", .number (.posInt event.schemaVersion.toUInt64)),
    ("sequence", .number (.posInt event.sequence)),
    ("timestamp", .string event.timestamp),
    ("category", .string event.category),
    ("data", .object event.data)]).wireBytes

def standard : Codec where
  encode := encodeBytes
  decode := decodeBytes
  wireBytes event := some event.wireBytes

/-- An ASCII character is written as its own code. -/
theorem utf8EncodeChar_ascii {byte : UInt8} (h : byte < 128) :
    String.utf8EncodeChar (Char.ofNat byte.toNat) = [byte] := by
  have hall : ∀ n < 128, String.utf8EncodeChar (Char.ofNat n) = [UInt8.ofNat n] := by
    decide
  have hbyte := hall byte.toNat h
  rwa [UInt8.ofNat_toNat] at hbyte

theorem stringBytes_encodeBytes (bytes : Bytes) :
    stringBytes (encodeBytes bytes) = Base64.encode bytes := by
  have hascii := Base64.encode_lt bytes
  unfold stringBytes encodeBytes
  rw [String.toUTF8_eq_toByteArray, String.toByteArray_ofList, List.utf8Encode,
    toList_data_toByteArray, flatMap_map]
  generalize Base64.encode bytes = encoded at hascii
  induction encoded with
  | nil => rfl
  | cons byte rest ih =>
    have hrest := ih fun b hb => hascii b (mem_cons_of_mem _ hb)
    rw [flatMap_cons, utf8EncodeChar_ascii (hascii byte mem_cons_self), hrest]
    rfl

theorem standard_lawful : standard.Lawful where
  decode_encode bytes := by
    show Base64.decode (stringBytes (encodeBytes bytes)) = some bytes
    rw [stringBytes_encodeBytes, Base64.decode_encode]
  decode_marker text hmarker := by
    show Base64.decode (stringBytes text) = none
    cases hdecode : Base64.decode (stringBytes text) with
    | none => rfl
    | some bytes =>
      have hsymbols := Base64.decode_symbols hdecode
      rcases hmarker with hstar | hbracket
      · exact absurd (hsymbols _ hstar) (by decide)
      · exact absurd (hsymbols _ hbracket) (by decide)

end OctaCity.Runner
