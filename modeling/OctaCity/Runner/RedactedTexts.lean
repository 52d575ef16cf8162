/-
  OctaCity.Runner.RedactedTexts

  Whole-document redaction: every string of a message or a result, and the bytes
  a document holds in base64.

  Main result: `RunnerRedactions.redacts_unmarked`, values that are text and have
  no byte in common with a marker are removed from every message and result.
-/
import OctaCity.Runner.QueueRun
import OctaCity.Runner.Replacement

namespace OctaCity.Runner

open Lib List Option RunnerRedactions

/-! ## Texts of a document -/

section

variable (codec : Codec) (values : List Bytes)

/-- The decoded bytes of a document that says it holds bytes. -/
def payloadOf (fields : Fields) : Option Bytes := do
  let format ← Fields.str fields "format"
  if format = "bytes" ∨ format = "raw_bytes" then do
    let encoded ← Fields.str fields "data"
    codec.decode encoded
  else none

mutual

/-- Every string of a document and every payload of bytes. -/
def texts : Json → List Bytes
  | .string text => [stringBytes text]
  | .array items => itemTexts items
  | .object fields => (payloadOf codec fields).toList ++ fieldTexts fields
  | .null | .bool _ | .number _ => []

def itemTexts : List Json → List Bytes
  | [] => []
  | item :: items => texts item ++ itemTexts items

def fieldTexts : List (String × Json) → List Bytes
  | [] => []
  | (_, value) :: fields => texts value ++ fieldTexts fields

end

end

/-! ## Strings -/

section

variable {codec : Codec} {values : List Bytes}

variable {bytes : Bytes} {fields fields' : Fields}

/-- Where all values are text, no string is broken. -/
theorem redactString_total (hvals : ∀ value ∈ values, IsText value)
    (hne : ∀ value ∈ values, value ≠ []) (text : String) :
    ∃ text', redactString values text = some text' :=
  isSome_iff_exists.mp (isText_redactBytes hvals hne (isText_stringBytes text))

theorem redactString_avoids (hapart : Unmarked values) (hne : ∀ value ∈ values, value ≠ [])
    {text text' : String} (h : redactString values text = some text') :
    Avoids values (stringBytes text') := by
  rw [stringBytes_of_fromUtf8 h]
  exact avoids_redactBytes hapart hne _

/-! ## Payloads -/

theorem payloadOf_eq_some :
    payloadOf codec fields = some bytes ↔ ∃ format encoded, Fields.str fields "format" = some format ∧
      (format = "bytes" ∨ format = "raw_bytes") ∧ Fields.str fields "data" = some encoded ∧
      codec.decode encoded = some bytes := by
  unfold payloadOf
  constructor
  · intro h
    obtain ⟨format, hfmt, h⟩ := bind_eq_some_iff.mp h
    obtain ⟨hname, h⟩ := ite_none_right_eq_some.mp h
    obtain ⟨encoded, hdata, h⟩ := bind_eq_some_iff.mp h
    exact ⟨format, encoded, hfmt, hname, hdata, h⟩
  · rintro ⟨format, encoded, hfmt, hname, hdata, hdecode⟩
    refine bind_eq_some_iff.mpr ⟨format, hfmt, ?_⟩
    exact (if_pos hname).trans (bind_eq_some_iff.mpr ⟨encoded, hdata, hdecode⟩)

theorem redactedData_eq (codec : Codec) (values : List Bytes) (fields : Fields) : redactedData codec values fields =
    (payloadOf codec fields).map fun bytes => codec.encode (redactBytes bytes values) := by
  unfold redactedData payloadOf
  cases Fields.str fields "format" with
  | none => rfl
  | some format =>
    dsimp only [bind_eq_bind, bind_some]
    split
    · cases Fields.str fields "data" with
      | none => rfl
      | some encoded =>
        dsimp only [bind_some]
        cases codec.decode encoded <;> rfl
    · rfl

theorem not_hasMarker_format {format : String} (h : format = "bytes" ∨ format = "raw_bytes") :
    ¬HasMarker (stringBytes format) := by
  obtain rfl | rfl := h
  · exact hasMarker_name .bytes
  · exact hasMarker_name .rawBytes

theorem str_data_of_redactMap {encoded' : String} (h : redactMap codec values fields = .ok fields')
    (hdata' : Fields.str fields' "data" = some encoded') :
    ∃ data, Fields.str fields "data" = some data ∧
      redactString values ((redactedData codec values fields).getD data) = some encoded' := by
  obtain ⟨data, hdata⟩ : ∃ data, Fields.str fields "data" = some data := by
    cases hredd : redactedData codec values fields with
    | some encoded =>
      rw [redactedData_eq] at hredd
      obtain ⟨bytes, hpay, -⟩ := map_eq_some_iff.mp hredd
      obtain ⟨_, data, -, -, hdata, -⟩ := payloadOf_eq_some.mp hpay
      exact ⟨data, hdata⟩
    | none =>
      unfold Fields.str at hdata' ⊢
      obtain ⟨hnone, hnone'⟩ | ⟨value, value', hget, hvalue, hget'⟩ := get_redactFields h "data"
      · rw [hnone'] at hdata'
        cases hdata'
      · rw [hget', bind_some] at hdata'
        rw [hget, bind_some]
        unfold redactField at hvalue
        rw [if_pos rfl, hredd] at hvalue
        obtain ⟨data, hdata, -⟩ := ((redactValue_kind hvalue).2.1 encoded').mp hdata'
        exact ⟨data, hdata⟩
  exact ⟨data, hdata, (str_data_redactMap h hdata encoded').mp hdata'⟩

/-- What is decoded after redaction are the redacted bytes of what was decoded before. -/
theorem payloadOf_redactMap (hcodec : codec.Lawful) (hne : ∀ value ∈ values, value ≠ [])
    (h : redactMap codec values fields = .ok fields') {bytes' : Bytes}
    (hpay' : payloadOf codec fields' = some bytes') :
    ∃ bytes, payloadOf codec fields = some bytes ∧ bytes' = redactBytes bytes values := by
  obtain ⟨format', encoded', hfmt', hname, hdata', hdecode'⟩ := payloadOf_eq_some.mp hpay'
  obtain ⟨format, hfmt, hredd⟩ := (str_redactMap h (by decide) format').mp hfmt'
  obtain ⟨data, hdata, hencoded⟩ := str_data_of_redactMap h hdata'
  -- Neither the format's name nor a text that decodes holds a marker.
  have hsameFormat := (redactString_eq_or hne hredd).resolve_right (not_hasMarker_format hname)
  have hsameData := (redactString_eq_or hne hencoded).resolve_right fun hmarker => by
    rw [hcodec.decode_marker _ hmarker] at hdecode'
    cases hdecode'
  subst hsameFormat
  have hredactedData := redactedData_eq codec values fields
  cases hpay : payloadOf codec fields with
  | some bytes =>
    rw [hpay, map_some] at hredactedData
    rw [hredactedData, getD_some] at hsameData
    rw [hsameData, hcodec.decode_encode] at hdecode'
    exact ⟨bytes, rfl, (Option.some.inj hdecode').symm⟩
  | none =>
    rw [hpay, map_none] at hredactedData
    rw [hredactedData, getD_none] at hsameData
    subst hsameData
    rw [payloadOf_eq_some.mpr ⟨_, _, hfmt, hname, hdata, hdecode'⟩] at hpay
    cases hpay

/-! ## Documents -/

theorem redactFields_cons_eq_ok {data : Option String} {name : String} {value value' : Json}
    (hvalue : redactField codec values data name value = .ok value')
    (hflds : redactFields codec values data fields = .ok fields') :
    redactFields codec values data ((name, value) :: fields) = .ok ((name, value') :: fields') := by
  rw [redactFields]
  unfold redactField at hvalue
  cases hdata : if name = "data" then data else none with
  | some encoded =>
    rw [hdata] at hvalue
    obtain ⟨text, htext, hvalue⟩ := bind_eq_ok.mp hvalue
    cases hvalue
    dsimp only
    rw [htext, hflds]
    rfl
  | none =>
    rw [hdata] at hvalue
    dsimp only at hvalue ⊢
    rw [hvalue, hflds]
    rfl

/-- The payload of a redacted document without values is encoded as it is. -/
theorem redactedData_again (hcodec : codec.Lawful) (hne : ∀ value ∈ values, value ≠ [])
    (h : redactMap codec values fields = .ok fields')
    (havoid : ∀ text ∈ (payloadOf codec fields').toList, Avoids values text) :
    redactedData codec values fields' = redactedData codec values fields ∨
      redactedData codec values fields' = none := by
  cases hpay' : payloadOf codec fields' with
  | none => exact .inr (by rw [redactedData_eq, hpay', map_none])
  | some bytes' =>
    obtain ⟨bytes, hpay, rfl⟩ := payloadOf_redactMap hcodec hne h hpay'
    rw [hpay', toList_some, forall_mem_singleton] at havoid
    refine .inl ?_
    rw [redactedData_eq, redactedData_eq, hpay', hpay, map_some, map_some,
      redactBytes_of_avoids havoid]

mutual

/-- A redacted document holds no value. -/
theorem texts_redactValue (hcodec : codec.Lawful) (hne : ∀ value ∈ values, value ≠ [])
    (hapart : Unmarked values) :
    ∀ (value : Json) {value' : Json},
    redactValue codec values value = .ok value' → ∀ text ∈ texts codec value', Avoids values text
  | .string text, value', h => by
    rw [redactValue] at h
    obtain ⟨text', htext, h⟩ := bind_eq_ok.mp h
    cases h
    rw [texts, forall_mem_singleton]
    exact redactString_avoids hapart hne (orFault_eq_ok.mp htext)
  | .array items, value', h => by
    rw [redactValue] at h
    obtain ⟨items', hitems, h⟩ := bind_eq_ok.mp h
    cases h
    rw [texts]
    exact texts_redactItems hcodec hne hapart items hitems
  | .object fields, value', h => by
    rw [redactValue] at h
    obtain ⟨fields', hflds, h⟩ := bind_eq_ok.mp h
    cases h
    rw [texts, forall_mem_append]
    refine ⟨fun bytes' hbytes' => ?_, texts_redactFields hcodec hne hapart _ fields hflds⟩
    obtain ⟨bytes, -, rfl⟩ :=
      payloadOf_redactMap hcodec hne hflds (mem_toList.mp hbytes')
    exact avoids_redactBytes hapart hne bytes
  | .null, value', h => by
    cases h
    simp [texts]
  | .bool _, value', h => by
    cases h
    simp [texts]
  | .number _, value', h => by
    cases h
    simp [texts]

theorem texts_redactItems (hcodec : codec.Lawful) (hne : ∀ value ∈ values, value ≠ [])
    (hapart : Unmarked values) :
    ∀ (items : List Json) {items' : List Json},
    redactItems codec values items = .ok items' →
      ∀ text ∈ itemTexts codec items', Avoids values text
  | [], items', h => by
    cases h
    simp [itemTexts]
  | item :: items, items', h => by
    rw [redactItems] at h
    obtain ⟨item', hitem, h⟩ := bind_eq_ok.mp h
    obtain ⟨rest', hrest, h⟩ := bind_eq_ok.mp h
    cases h
    rw [itemTexts, forall_mem_append]
    exact ⟨texts_redactValue hcodec hne hapart item hitem,
      texts_redactItems hcodec hne hapart items hrest⟩

theorem texts_redactFields (hcodec : codec.Lawful) (hne : ∀ value ∈ values, value ≠ [])
    (hapart : Unmarked values) (data : Option String) :
    ∀ (fields : List (String × Json))
    {fields' : List (String × Json)}, redactFields codec values data fields = .ok fields' →
      ∀ text ∈ fieldTexts codec fields', Avoids values text
  | [], fields', h => by
    cases h
    simp [fieldTexts]
  | (name, value) :: fields, fields', h => by
    obtain ⟨value', rest', hvalue, hrest, rfl⟩ := redactFields_cons h
    rw [fieldTexts, forall_mem_append]
    refine ⟨?_, texts_redactFields hcodec hne hapart data fields hrest⟩
    unfold redactField at hvalue
    split at hvalue
    · obtain ⟨text', htext, hvalue⟩ := bind_eq_ok.mp hvalue
      cases hvalue
      rw [texts, forall_mem_singleton]
      exact redactString_avoids hapart hne (orFault_eq_ok.mp htext)
    · exact texts_redactValue hcodec hne hapart value hvalue

end

mutual

/-- No redaction of a document fails. -/
theorem redactValue_total (hne : ∀ value ∈ values, value ≠ [])
    (hvals : ∀ value ∈ values, IsText value) :
    ∀ value : Json, ∃ value', redactValue codec values value = .ok value'
  | .string text => by
    obtain ⟨text', htext⟩ := redactString_total hvals hne text
    exact ⟨.string text', by rw [redactValue, htext]; rfl⟩
  | .array items => by
    obtain ⟨items', hitems⟩ := redactItems_total hne hvals items
    exact ⟨.array items', by rw [redactValue, hitems]; rfl⟩
  | .object fields => by
    obtain ⟨fields', hflds⟩ := redactFields_total hne hvals (redactedData codec values fields) fields
    exact ⟨.object fields', by rw [redactValue, hflds]; rfl⟩
  | .null => ⟨.null, by rw [redactValue]⟩
  | .bool value => ⟨.bool value, by rw [redactValue]⟩
  | .number value => ⟨.number value, by rw [redactValue]⟩

theorem redactItems_total (hne : ∀ value ∈ values, value ≠ [])
    (hvals : ∀ value ∈ values, IsText value) :
    ∀ items : List Json,
    ∃ items', redactItems codec values items = .ok items'
  | [] => ⟨[], by rw [redactItems]⟩
  | item :: items => by
    obtain ⟨item', hitem⟩ := redactValue_total hne hvals item
    obtain ⟨items', hitems⟩ := redactItems_total hne hvals items
    exact ⟨item' :: items', by rw [redactItems, hitem, hitems]; rfl⟩

theorem redactFields_total (hne : ∀ value ∈ values, value ≠ [])
    (hvals : ∀ value ∈ values, IsText value) (data : Option String) :
    ∀ fields : List (String × Json),
    ∃ fields', redactFields codec values data fields = .ok fields'
  | [] => ⟨[], by rw [redactFields]⟩
  | (name, value) :: fields => by
    obtain ⟨fields', hflds⟩ := redactFields_total hne hvals data fields
    obtain ⟨value', hvalue⟩ : ∃ value', redactField codec values data name value = .ok value' := by
      unfold redactField
      split
      · rename_i encoded _
        obtain ⟨text', htext⟩ := redactString_total hvals hne encoded
        exact ⟨.string text', by rw [htext]; rfl⟩
      · exact redactValue_total hne hvals value
    exact ⟨_, redactFields_cons_eq_ok hvalue hflds⟩

end

mutual

/-- A redacted document without values is redacted to itself. -/
theorem redactValue_again (hcodec : codec.Lawful) (hne : ∀ value ∈ values, value ≠ []) :
    ∀ (value : Json) {value' : Json},
    redactValue codec values value = .ok value' →
      (∀ text ∈ texts codec value', Avoids values text) →
      redactValue codec values value' = .ok value'
  | .string text, value', h, havoid => by
    rw [redactValue] at h
    obtain ⟨text', htext, h⟩ := bind_eq_ok.mp h
    cases h
    rw [redactValue, redactString_of_avoids (havoid _ (mem_singleton_self _))]
    rfl
  | .array items, value', h, havoid => by
    rw [redactValue] at h
    obtain ⟨items', hitems, h⟩ := bind_eq_ok.mp h
    cases h
    rw [redactValue, redactItems_again hcodec hne items hitems havoid]
    rfl
  | .object fields, value', h, havoid => by
    rw [redactValue] at h
    obtain ⟨fields', hflds, h⟩ := bind_eq_ok.mp h
    cases h
    obtain ⟨hpay, hinner⟩ := forall_mem_append.mp havoid
    rw [redactValue, redactFields_again hcodec hne _ fields hflds hinner
      (redactedData_again hcodec hne hflds hpay)]
    rfl
  | .null, value', h, _ => by
    cases h
    rfl
  | .bool _, value', h, _ => by
    cases h
    rfl
  | .number _, value', h, _ => by
    cases h
    rfl

theorem redactItems_again (hcodec : codec.Lawful) (hne : ∀ value ∈ values, value ≠ []) :
    ∀ (items : List Json) {items' : List Json},
    redactItems codec values items = .ok items' →
      (∀ text ∈ itemTexts codec items', Avoids values text) →
      redactItems codec values items' = .ok items'
  | [], items', h, _ => by
    cases h
    rfl
  | item :: items, items', h, havoid => by
    rw [redactItems] at h
    obtain ⟨item', hitem, h⟩ := bind_eq_ok.mp h
    obtain ⟨rest', hrest, h⟩ := bind_eq_ok.mp h
    cases h
    obtain ⟨hhead, htail⟩ := forall_mem_append.mp havoid
    rw [redactItems, redactValue_again hcodec hne item hitem hhead,
      redactItems_again hcodec hne items hrest htail]
    rfl

theorem redactFields_again (hcodec : codec.Lawful) (hne : ∀ value ∈ values, value ≠ []) (data : Option String) :
    ∀ (fields : List (String × Json))
    {fields' : List (String × Json)}, redactFields codec values data fields = .ok fields' →
      (∀ text ∈ fieldTexts codec fields', Avoids values text) →
      ∀ {data' : Option String}, data' = data ∨ data' = none →
        redactFields codec values data' fields' = .ok fields'
  | [], fields', h, _, data', _ => by
    cases h
    rfl
  | (name, value) :: fields, fields', h, havoid, data', hdata => by
    obtain ⟨value', rest', hvalue, hrest, rfl⟩ := redactFields_cons h
    obtain ⟨hhead, htail⟩ := forall_mem_append.mp havoid
    refine redactFields_cons_eq_ok ?_ (redactFields_again hcodec hne data fields hrest htail hdata)
    unfold redactField at hvalue ⊢
    by_cases hname : name = "data"
    · rw [if_pos hname] at hvalue ⊢
      obtain rfl | rfl := hdata
      · cases data' with
        | some encoded => exact hvalue
        | none => exact redactValue_again hcodec hne value hvalue hhead
      · cases data with
        | some encoded =>
          obtain ⟨text', htext, hvalue⟩ := bind_eq_ok.mp hvalue
          cases hvalue
          show redactValue codec values (.string text') = _
          rw [redactValue, redactString_of_avoids (hhead _ (mem_singleton_self _))]
          rfl
        | none => exact redactValue_again hcodec hne value hvalue hhead
    · rw [if_neg hname] at hvalue ⊢
      exact redactValue_again hcodec hne value hvalue hhead

end

end

/-! ## Messages and results -/

namespace RunnerRedactions

def message (state : RunnerRedactions) (message : String) : Except RedactionFault String :=
  orFault .utf8 (redactString state.values message)

def results (codec : Codec) (state : RunnerRedactions) (results : List Json) :
    Except RedactionFault (List Json) :=
  redactItems codec state.values results

/-- Where the given values are text and none of those kept has a byte in common with a marker, every
message and every list of results is redacted, holds no protected value afterwards, and stays as it
is when redacted again. -/
theorem redacts_unmarked {codec : Codec} (hcodec : codec.Lawful) {given : List Bytes}
    {state : RunnerRedactions} (hnew : new given = some state)
    (htext : ∀ value ∈ given, IsText value) (hapart : Unmarked state.values) :
    (∀ value ∈ given, value ≠ [] → value ∈ state.values) ∧
    (∀ text, ∃ text', state.message text = .ok text' ∧
      Avoids state.values (stringBytes text') ∧ state.message text' = .ok text') ∧
    ∀ items, ∃ items', state.results codec items = .ok items' ∧
      (∀ text ∈ itemTexts codec items', Avoids state.values text) ∧
      state.results codec items' = .ok items' := by
  obtain ⟨state₀, hnew₀, hformed, -, -, hgiven, hkept⟩ := new_spec given
  rw [hnew] at hnew₀
  cases hnew₀
  have hne : ∀ value ∈ state.values, value ≠ [] := hformed.prepared.ne_nil
  have hvals : ∀ value ∈ state.values, IsText value := by
    intro value hvalue
    obtain ⟨original, horig, rfl | rfl⟩ := hkept value hvalue
    · exact htext value horig
    · exact (htext original horig).trimAscii
  refine ⟨hgiven, fun text => ?_, fun items => ?_⟩
  · obtain ⟨text', h⟩ := redactString_total hvals hne text
    have havoid := redactString_avoids hapart hne h
    exact ⟨text', by rw [message, h]; rfl, havoid,
      by rw [message, redactString_of_avoids havoid]; rfl⟩
  · obtain ⟨items', h⟩ : ∃ items', redactItems codec _ items = .ok items' :=
      redactItems_total hne hvals items
    have havoid := texts_redactItems hcodec hne hapart items h
    exact ⟨items', h, havoid, redactItems_again hcodec hne items h havoid⟩

/-- A password and a longer value that is not ASCII. -/
theorem redacts_unmarked_password :
    ∃ state, new [stringBytes "pw1", stringBytes "schlüssel "] = some state ∧
      state.message "pw1 schlüssel" = .ok "*** [redacted]" ∧
      ∀ text, ∃ text', state.message text = .ok text' ∧
        Avoids state.values (stringBytes text') ∧ state.message text' = .ok text' := by
  obtain ⟨state, hnew, -⟩ := new_spec [stringBytes "pw1", stringBytes "schlüssel "]
  have hvals : state.values =
      [stringBytes "schlüssel ", stringBytes "schlüssel", stringBytes "pw1"] := by
    have hall : (new [stringBytes "pw1", stringBytes "schlüssel "]).map (·.values) =
        some [stringBytes "schlüssel ", stringBytes "schlüssel", stringBytes "pw1"] := by decide
    rw [hnew] at hall
    exact Option.some.inj hall
  refine ⟨state, hnew, ?_, (redacts_unmarked standard_lawful hnew (by decide) ?_).2.1⟩
  · rw [message, hvals]
    decide
  · rw [hvals]
    decide

/-- With `k**` and `ab` protected, `kab` becomes the protected `k**`. -/
theorem marker_completes_longer_value :
    ¬∀ (given : List Bytes) (state : RunnerRedactions) (text text' : String),
      new given = some state → state.message text = .ok text' →
        Avoids state.values (stringBytes text') := by
  intro hclaim
  obtain ⟨state, hnew, -⟩ := new_spec [[107, 42, 42], [97, 98]]
  have hvals : state.values = [[107, 42, 42], [97, 98]] := by
    have hall : (new [[107, 42, 42], [97, 98]]).map (·.values) =
        some [[107, 42, 42], [97, 98]] := by decide
    rw [hnew] at hall
    exact Option.some.inj hall
  have hmessage : state.message "kab" = .ok "k**" := by
    rw [message, hvals]
    decide
  have havoid := hclaim _ state _ _ hnew hmessage
  rw [hvals] at havoid
  exact absurd havoid (by decide)

end RunnerRedactions

end OctaCity.Runner
